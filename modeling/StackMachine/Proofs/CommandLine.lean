import StackMachine.CommandLine
import StackMachine.Proofs.Catalog.Termination
import StackMachine.Proofs.CommandLine.RunOptions
import StackMachine.Proofs.Execution.Invariant
import StackMachine.Proofs.Validation.Diagnosis

/-!
# The command line answers

`respond` has an answer to every list of words, and more fuel does not change it (`Settles`), since
every execution of a program of the catalog ends.  The exit code tells what happened, and nothing is
printed but by what succeeds (`Report.Proper`).

For `run` the exit code can be told from the words, from what `verify` says of the program, and from
how its execution ends.

* `WrongUse`: the words do not name a program, or do not spell options.
* `Executes`: what is reported where they do.
* `command_line_answers`: all of it.
-/

namespace StackMachine

/-! ### Machines from definitions -/

namespace Machine

variable {m : Machine} {definitions : List Definition}

theorem definitions_of_ofDefinitions (h : ofDefinitions definitions = .ok m) :
    m.definitions = definitions := by
  unfold ofDefinitions at h
  split at h
  · cases h
    rfl
  · cases h

theorem error?_ofDefinitions (definitions : List Definition) :
    error? (ofDefinitions definitions) = error? (validate definitions) := by
  unfold ofDefinitions
  split
  · rename_i program haccepted
    exact (congrArg error? haccepted).symm
  · rename_i fault hrefused
    exact (congrArg error? hrefused).symm

end Machine

/-! ### Names -/

theorem Catalog.find?_eq_some_iff {name : String} {e : Catalog.Entry} :
    Catalog.find? name = some e ↔ e ∈ Catalog.all ∧ e.name = name := by
  constructor
  · intro h
    exact ⟨List.mem_of_find?_eq_some h, by simpa using List.find?_some h⟩
  · rintro ⟨he, rfl⟩
    have hnames : ∀ e ∈ Catalog.all, Catalog.find? e.name = some e := by decide
    exact hnames e he

namespace CommandLine

/-! ### Reports -/

/-- The exit code is one of the four, and only a success prints. -/
structure Report.Proper (r : Report) : Prop where
  exitCode_le : r.exitCode ≤ 3
  out_eq_nil : r.exitCode ≠ 0 → r.out = []

/-- The answer is the report with any fuel from some amount on. -/
def Settles (answer : Nat → Option Report) (report : Report) : Prop :=
  ∃ bound, ∀ fuel, bound ≤ fuel → answer fuel = some report

namespace Report.Proper

variable {r : Report}

theorem of_success (h : r.exitCode = 0) : r.Proper := ⟨by omega, fun hne => absurd h hne⟩

theorem of_wrongUse (h : r.exitCode = 1) (hout : r.out = []) : r.Proper :=
  ⟨by omega, fun _ => hout⟩

end Report.Proper

theorem proper_list (words : List String) : (list words).Proper := by
  cases words with
  | nil => exact .of_success rfl
  | cons word rest => exact .of_wrongUse rfl rfl

theorem lookup_cases (command : String) (words : List String) :
    (∃ e rest, e ∈ Catalog.all ∧ words = e.name :: rest ∧ lookup command words = .ok (e, rest)) ∨
    ∃ report, (∀ e ∈ Catalog.all, ∀ rest, words ≠ e.name :: rest) ∧
      lookup command words = .error report ∧ report.exitCode = 1 ∧ report.out = [] := by
  cases words with
  | nil => exact .inr ⟨_, fun e _ rest => (List.cons_ne_nil _ _).symm, rfl, rfl, rfl⟩
  | cons name rest =>
    cases hfind : Catalog.find? name with
    | some e =>
      obtain ⟨he, rfl⟩ := Catalog.find?_eq_some_iff.mp hfind
      exact .inl ⟨e, rest, he, rfl, by simp only [lookup, hfind]⟩
    | none =>
      refine .inr ⟨_, ?_, by simp only [lookup, hfind]; rfl, rfl, rfl⟩
      rintro e he rest' hwords
      cases hwords
      rw [Catalog.find?_eq_some_iff.mpr ⟨he, rfl⟩] at hfind
      cases hfind

/-! ### Verification -/

theorem verify_name {e : Catalog.Entry} (he : e ∈ Catalog.all) :
    verify [e.name] = verifyProgram e := by
  simp only [verify, lookup, Catalog.find?_eq_some_iff.mpr ⟨he, rfl⟩]

theorem verifyProgram_of_accepted {e : Catalog.Entry} (h : error? (validate e.definitions) = none) :
    (verifyProgram e).exitCode = 0 := by
  rw [← head?_diagnose, List.head?_eq_none_iff] at h
  simp only [verifyProgram, h]

theorem verifyProgram_of_refused {e : Catalog.Entry} {fault : Fault}
    (h : error? (validate e.definitions) = some fault) :
    ∃ others, verifyProgram e =
      { exitCode := 2, err := ("error: " ++ fault.message) :: others } := by
  rw [← head?_diagnose] at h
  obtain ⟨others, hfaults⟩ := List.head?_eq_some_iff.mp h
  exact ⟨others.map ("error: " ++ ·.message), by simp only [verifyProgram, hfaults, List.map_cons]⟩

theorem proper_verifyProgram (e : Catalog.Entry) : (verifyProgram e).Proper := by
  unfold verifyProgram
  split
  · exact .of_success rfl
  · exact ⟨show 2 ≤ 3 by decide, fun _ => rfl⟩

theorem proper_verify (words : List String) : (verify words).Proper := by
  rcases lookup_cases "verify" words with ⟨e, rest, -, -, hlookup⟩ |
    ⟨report, -, hlookup, hcode, hout⟩
  · simp only [verify, hlookup]
    exact proper_verifyProgram e
  · simp only [verify, hlookup]
    exact .of_wrongUse hcode hout

/-! ### Execution -/

def announced (verbose : Bool) (e : Catalog.Entry) (o : RunOptions) (report : Report) : Report :=
  if verbose then { report with err := announcement e o :: report.err } else report

@[simp] theorem exitCode_announced (verbose : Bool) (e : Catalog.Entry) (o : RunOptions)
    (report : Report) : (announced verbose e o report).exitCode = report.exitCode := by
  cases verbose <;> rfl

@[simp] theorem out_announced (verbose : Bool) (e : Catalog.Entry) (o : RunOptions)
    (report : Report) : (announced verbose e o report).out = report.out := by
  cases verbose <;> rfl

/-- What is reported of an execution: whether it failed or returned, and each value that it
returned on a line of its own. -/
structure Tells (m : Machine) (o : RunOptions) (report : Report) : Prop where
  failed_iff : report.exitCode = 3 ↔
    ∃ fault, m.Ends o.entry o.arguments (.failed (.fault fault))
  returned_iff : report.exitCode = 0 ↔ ∃ values, m.Ends o.entry o.arguments (.returned values)
  printed : ∀ {values}, m.Ends o.entry o.arguments (.returned values) →
    report.out = values.map Value.text ∧
    ∀ value ∈ values, readValue? value.text = some value ∧ '\n' ∉ value.text.toList

theorem not_mem_text (v : Value) : '\n' ∉ v.text.toList := by
  cases v with
  | boolean b => cases b <;> decide
  | integer i =>
    intro hmem
    rcases Decimal.eq_minus_or_isDigit hmem with hminus | hdigit
    · exact absurd hminus (by decide)
    · exact absurd hdigit (by decide)

theorem exists_fault_of_ne_stuck {failure : Failure} (h : Outcome.failed failure ≠ .failed .stuck) :
    ∃ fault, failure = .fault fault := by
  cases failure with
  | fault fault => exact ⟨fault, rfl⟩
  | stuck => exact absurd rfl h

theorem Tells.of_ends {m : Machine} {o : RunOptions} {report : Report} {outcome : Outcome}
    (h : m.Ends o.entry o.arguments outcome) (hstuck : outcome ≠ .failed .stuck)
    (hcode : report.exitCode = (outcomeReport outcome).exitCode)
    (hout : report.out = (outcomeReport outcome).out) : Tells m o report := by
  cases outcome with
  | returned values =>
    have hzero : report.exitCode = 0 := hcode
    refine ⟨⟨?_, ?_⟩, ⟨fun _ => ⟨values, h⟩, fun _ => hzero⟩, ?_⟩
    · intro hthree
      omega
    · rintro ⟨fault, hfails⟩
      cases h.unique hfails
    · intro values' hreturns
      cases h.unique hreturns
      exact ⟨hout, fun value _ => ⟨readValue?_text value, not_mem_text value⟩⟩
  | failed failure =>
    obtain ⟨fault, rfl⟩ := exists_fault_of_ne_stuck hstuck
    have hthree : report.exitCode = 3 := hcode
    refine ⟨⟨fun _ => ⟨fault, h⟩, fun _ => hthree⟩, ⟨?_, ?_⟩, ?_⟩
    · intro hzero
      omega
    · rintro ⟨values, hreturns⟩
      cases h.unique hreturns
    · intro values hreturns
      cases h.unique hreturns

theorem outcomeReport_cases {outcome : Outcome} (h : outcome ≠ .failed .stuck) :
    (outcomeReport outcome).exitCode = 0 ∨
    (outcomeReport outcome).exitCode = 3 ∧ (outcomeReport outcome).out = [] := by
  cases outcome with
  | returned values => exact .inl rfl
  | failed failure =>
    obtain ⟨fault, rfl⟩ := exists_fault_of_ne_stuck h
    exact .inr ⟨rfl, rfl⟩

/-- What is reported of a program that is run with some options: the first fault that `verify` finds
in it, or else how its execution ends. -/
structure Executes (e : Catalog.Entry) (o : RunOptions) (report : Report) : Prop where
  refused_iff : report.exitCode = 2 ↔ (verify [e.name]).exitCode = 2
  refusal : report.exitCode = 2 →
    ∃ first others, (verify [e.name]).err = first :: others ∧ report.err = [first]
  executed : report.exitCode ≠ 2 →
    ∃ m, Machine.ofDefinitions e.definitions = .ok m ∧ Tells (m.withLimits o.limits) o report

section Execution

variable {e : Catalog.Entry} {words : List String} {o : RunOptions} {m : Machine}

theorem Executes.of_refused {fault : Fault} (he : e ∈ Catalog.all)
    (h : Machine.ofDefinitions e.definitions = .error fault) :
    Executes e o { exitCode := 2, err := ["error: " ++ fault.message] } := by
  have hvalidate : error? (validate e.definitions) = some fault := by
    rw [← Machine.error?_ofDefinitions, h]
    rfl
  obtain ⟨others, hverify⟩ := verifyProgram_of_refused hvalidate
  rw [← verify_name he] at hverify
  refine ⟨?_, ?_, fun hother => absurd rfl hother⟩
  · rw [hverify]
  · rw [hverify]
    exact fun _ => ⟨_, others, rfl, rfl⟩

theorem Executes.of_tells {report : Report} (he : e ∈ Catalog.all)
    (h : Machine.ofDefinitions e.definitions = .ok m) (hcode : report.exitCode ≠ 2)
    (htells : Tells (m.withLimits o.limits) o report) : Executes e o report := by
  have hvalidate : error? (validate e.definitions) = none := by
    rw [← Machine.error?_ofDefinitions, h]
    rfl
  have hverify : (verify [e.name]).exitCode = 0 := by
    rw [verify_name he]
    exact verifyProgram_of_accepted hvalidate
  refine ⟨?_, fun htwo => absurd htwo hcode, fun _ => ⟨m, h, htells⟩⟩
  rw [hverify]
  exact ⟨fun htwo => absurd htwo hcode, fun htwo => absurd htwo (by decide)⟩

theorem runProgram_of_call {fuel : Nat} {verbose : Bool} {outcome : Outcome}
    (hread : RunOptions.read words = .ok o) (h : Machine.ofDefinitions e.definitions = .ok m)
    (hcall : (m.withLimits o.limits).call fuel o.entry o.arguments = some outcome) :
    runProgram fuel verbose e words = some (announced verbose e o (outcomeReport outcome)) := by
  simp only [runProgram, hread, h, hcall]
  rfl

/-- **A program of the catalog is run to its end.** -/
theorem exists_executes (verbose : Bool) (he : e ∈ Catalog.all)
    (hread : RunOptions.read words = .ok o) :
    ∃ report, Settles (runProgram · verbose e words) report ∧
      report.Proper ∧ report.exitCode ≠ 1 ∧ Executes e o report := by
  cases hm : Machine.ofDefinitions e.definitions with
  | error fault =>
    refine ⟨_, ⟨0, fun fuel _ => ?_⟩, ⟨show 2 ≤ 3 by decide, fun _ => rfl⟩,
      show 2 ≠ 1 by decide, .of_refused he hm⟩
    simp only [runProgram, hread, hm]
  | ok m =>
    have hdefinitions : m.definitions = e.definitions := Machine.definitions_of_ofDefinitions hm
    obtain ⟨outcome, hends⟩ := Machine.exists_ends_of_mem_catalog (m := m.withLimits o.limits) he
      hdefinitions o.entry o.arguments
    have hstuck : outcome ≠ .failed .stuck := by
      rintro rfl
      exact Machine.not_ends_stuck_of_mem_catalog (m := m.withLimits o.limits) he hdefinitions hends
    have htells : Tells (m.withLimits o.limits) o (announced verbose e o (outcomeReport outcome)) :=
      .of_ends hends hstuck (exitCode_announced ..) (out_announced ..)
    obtain ⟨bound, hbound⟩ := hends
    refine ⟨_, ⟨bound, fun fuel hle => runProgram_of_call hread hm (run_mono hbound hle)⟩, ?_⟩
    have hcases := outcomeReport_cases hstuck
    rw [← exitCode_announced verbose e o, ← out_announced verbose e o] at hcases
    rcases hcases with hzero | ⟨hthree, hout⟩
    · exact ⟨.of_success hzero, by omega, .of_tells he hm (by omega) htells⟩
    · exact ⟨⟨by omega, fun _ => hout⟩, by omega, .of_tells he hm (by omega) htells⟩

end Execution

/-! ### Runs -/

/-- The words of a run that is not started. -/
inductive WrongUse : List String → Prop where
  | noName : WrongUse []
  | unknownName {name : String} {rest : List String}
      (unknown : ∀ e ∈ Catalog.all, e.name ≠ name) : WrongUse (name :: rest)
  | badOptions {name : String} {rest : List String} (bad : ∀ items, ¬ Spell rest items) :
      WrongUse (name :: rest)

/-- What is reported of a run: that it is not started, or else of the program that is named with the
options that are spelled. -/
structure Classifies (words : List String) (report : Report) : Prop where
  wrong_iff : report.exitCode = 1 ↔ WrongUse words
  executes : ∀ {e rest items}, e ∈ Catalog.all → words = e.name :: rest → Spell rest items →
    Executes e (items.foldl RunOptions.add {}) report

theorem not_wrongUse {e : Catalog.Entry} {rest : List String} {items : List Item}
    (he : e ∈ Catalog.all) (hspell : Spell rest items) : ¬ WrongUse (e.name :: rest) := by
  intro hwrong
  cases hwrong with
  | unknownName unknown => exact unknown e he rfl
  | badOptions bad => exact bad items hspell

theorem Classifies.of_wrongUse {words : List String} {report : Report} (h : WrongUse words)
    (hcode : report.exitCode = 1) : Classifies words report where
  wrong_iff := ⟨fun _ => h, fun _ => hcode⟩
  executes := by
    rintro e rest items he rfl hspell
    exact absurd h (not_wrongUse he hspell)

theorem Classifies.of_executes {e : Catalog.Entry} {rest : List String} {o : RunOptions}
    {report : Report} (he : e ∈ Catalog.all) (hread : RunOptions.read rest = .ok o)
    (hcode : report.exitCode ≠ 1) (h : Executes e o report) :
    Classifies (e.name :: rest) report := by
  obtain ⟨items, hspell, -⟩ := RunOptions.read_eq_ok_iff.mp hread
  refine ⟨⟨fun hone => absurd hone hcode, fun hwrong => absurd hwrong (not_wrongUse he hspell)⟩, ?_⟩
  intro e' rest' items' he' hwords hspell'
  obtain ⟨hname, rfl⟩ := List.cons.inj hwords
  -- names and spellings leave no choice
  have hfind := Catalog.find?_eq_some_iff.mpr ⟨he, hname⟩
  obtain rfl := Option.some.inj (hfind.symm.trans (Catalog.find?_eq_some_iff.mpr ⟨he', rfl⟩))
  have hread' := RunOptions.read_eq_ok_iff.mpr ⟨items', hspell', rfl⟩
  obtain rfl := Except.ok.inj (hread.symm.trans hread')
  exact h

theorem exists_run (verbose : Bool) (words : List String) :
    ∃ report, Settles (run · verbose words) report ∧
      report.Proper ∧ Classifies words report := by
  rcases lookup_cases "run" words with ⟨e, rest, he, rfl, hlookup⟩ |
    ⟨report, hunknown, hlookup, hcode, hout⟩
  · cases hread : RunOptions.read rest with
    | error problem =>
      have hbad : ∀ items, ¬ Spell rest items := by
        intro items hspell
        rw [RunOptions.read_eq_ok_iff.mpr ⟨items, hspell, rfl⟩] at hread
        cases hread
      refine ⟨{ exitCode := 1, err := ["error: " ++ problem.message, runUsage] },
        ⟨0, fun fuel _ => ?_⟩, .of_wrongUse rfl rfl, .of_wrongUse (.badOptions hbad) rfl⟩
      simp only [run, hlookup, runProgram, hread]
    | ok o =>
      obtain ⟨report, ⟨bound, hbound⟩, hproper, hcode, hexecutes⟩ :=
        exists_executes verbose he hread
      refine ⟨report, ⟨bound, fun fuel hle => ?_⟩, hproper, .of_executes he hread hcode hexecutes⟩
      simp only [run, hlookup]
      exact hbound fuel hle
  · have hwrong : WrongUse words := by
      cases words with
      | nil => exact .noName
      | cons name rest => exact .unknownName fun e he hname => hunknown e he rest (hname ▸ rfl)
    refine ⟨report, ⟨0, fun fuel _ => ?_⟩, .of_wrongUse hcode hout, .of_wrongUse hwrong hcode⟩
    simp only [run, hlookup]

/-! ### The whole command line -/

/-- Every command but `run` is answered at once. -/
theorem respond_cases (verbose : Bool) (words : List String) :
    (∃ rest, words = "run" :: rest) ∨
    (∀ rest, words ≠ "run" :: rest) ∧
      ∃ report, report.Proper ∧ ∀ fuel, respond fuel verbose words = some report := by
  by_cases hrun : ∃ rest, words = "run" :: rest
  · exact .inl hrun
  refine .inr ⟨fun rest hwords => hrun ⟨rest, hwords⟩, ?_⟩
  unfold respond
  split
  · exact ⟨_, .of_wrongUse rfl rfl, fun _ => rfl⟩
  · rename_i rest
    exact ⟨_, proper_list rest, fun _ => rfl⟩
  · rename_i rest
    exact ⟨_, proper_verify rest, fun _ => rfl⟩
  · rename_i rest
    exact absurd ⟨rest, rfl⟩ hrun
  · exact ⟨_, .of_success rfl, fun _ => rfl⟩
  · exact ⟨_, .of_success rfl, fun _ => rfl⟩
  · exact ⟨_, .of_success rfl, fun _ => rfl⟩
  · exact ⟨_, .of_wrongUse rfl rfl, fun _ => rfl⟩

/-- **The command line always answers, and its exit code tells what happened.**  Every execution of
a program of the catalog ends, from any function, on any arguments and under any limits.  So every
list of words has an answer, its exit code is at most three, and nothing is printed unless the code
is zero.  For `run` the code is one for a wrong use, and otherwise two for a program that `verify`
refuses as well, three for an execution that fails, and zero for one that returns. -/
theorem command_line_answers :
    (∀ e ∈ Catalog.all, ∀ m : Machine, m.definitions = e.definitions → ∀ entry arguments,
      ∃ outcome, m.Ends entry arguments outcome) ∧
    ∀ verbose words, ∃ report, Settles (respond · verbose words) report ∧ report.Proper ∧
      ∀ rest, words = "run" :: rest → Classifies rest report := by
  refine ⟨?_, ?_⟩
  · intro e he m hdefinitions
    exact Machine.exists_ends_of_mem_catalog he hdefinitions
  · intro verbose words
    rcases respond_cases verbose words with ⟨rest, rfl⟩ | ⟨hother, report, hproper, hrespond⟩
    · obtain ⟨report, hanswers, hproper, hclassifies⟩ := exists_run verbose rest
      refine ⟨report, hanswers, hproper, ?_⟩
      intro rest' hwords
      cases hwords
      exact hclassifies
    · exact ⟨report, ⟨0, fun fuel _ => hrespond fuel⟩, hproper,
        fun rest hwords => absurd hwords (hother rest)⟩

/-- A run of `gcd` with an option between its arguments: the execution returns, and its value is
printed. -/
theorem gcd_run_prints_six :
    Catalog.gcd ∈ Catalog.all ∧
      Spell ["48", "--max-depth", "1", "18"]
        [.argument (.integer 48), .number .maxDepth 1, .argument (.integer 18)] ∧
      ∃ report, Settles (respond · false ["run", "gcd", "48", "--max-depth", "1", "18"]) report ∧
        report.exitCode = 0 ∧ report.out = ["6"] := by
  have he : Catalog.gcd ∈ Catalog.all := by decide
  have hspell : Spell ["48", "--max-depth", "1", "18"]
      [.argument (.integer 48), .number .maxDepth 1, .argument (.integer 18)] :=
    .argument (by decide) (@Spell.number .maxDepth _ _ _ _ (by decide) (.argument (by decide) .nil))
  obtain ⟨report, hsettles, -, hrun⟩ :=
    command_line_answers.2 false ["run", "gcd", "48", "--max-depth", "1", "18"]
  have hexecutes := (hrun _ rfl).executes he rfl hspell
  have haccepted : report.exitCode ≠ 2 := mt hexecutes.refused_iff.mp (by decide)
  obtain ⟨m, hm, htells⟩ := hexecutes.executed haccepted
  have hgcd : Machine.ofDefinitions Catalog.gcd.definitions = .ok Machine.gcd := rfl
  obtain rfl := Except.ok.inj (hgcd.symm.trans hm)
  have hends : (Machine.gcd.withLimits ⟨1, 4096⟩).Ends 0 [.integer 48, .integer 18]
      (.returned [.integer 6]) := ⟨50, rfl⟩
  exact ⟨he, hspell, report, hsettles, htells.returned_iff.mpr ⟨_, hends⟩, (htells.printed hends).1⟩

end CommandLine

end StackMachine
