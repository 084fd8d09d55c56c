import StackMachine.CommandLine.RunOptions
import StackMachine.Proofs.Text.Numeral

/-!
# The words of a run

`RunOptions.read` takes one word or two at a time and stops at the first that makes no sense.  What
it accepts can be said without the reading: the words spell a list of items, each of them a flag
followed by its number or a value alone (`Spell`), and the options are these items applied one after
the other (`RunOptions.read_eq_ok_iff`).

A value is never taken for a flag, because nothing that starts with two dashes is a value
(`readValue?_of_dashes`).  Values are read back as they are written (`readValue?_text`).
-/

namespace StackMachine.CommandLine

/-! ### Values -/

/-- **A value is read back as it was written.** -/
theorem readValue?_text (v : Value) : readValue? v.text = some v := by
  cases v with
  | boolean b => cases b <;> rfl
  | integer i =>
    have hread := Decimal.readInt?_ofInt i.toInt
    rw [Value.text, readValue?]
    · rw [Decimal.readInt64?_ofInt64]
      rfl
    · intro htrue
      rw [← Decimal.ofInt64, htrue] at hread
      cases hread
    · intro hfalse
      rw [← Decimal.ofInt64, hfalse] at hread
      cases hread

theorem readValue?_of_dashes {text : String} {cs : List Char}
    (h : text.toList = '-' :: '-' :: cs) : readValue? text = none := by
  unfold readValue?
  split
  · cases h
  · cases h
  · rw [Decimal.readInt64?, Decimal.readInt?, h]
    rfl

/-- A word that is no flag is read as a value. -/
theorem RunOptions.readWord_eq_ok_iff {text : String} {value : Value} :
    readWord text = .ok value ↔ readValue? text = some value := by
  unfold readWord
  split
  · rename_i hdashes
    simp [readValue?_of_dashes hdashes]
  · cases readValue? text <;> simp

/-! ### Flags -/

theorem Flag.ofText?_eq_some_iff {text : String} {flag : Flag} :
    Flag.ofText? text = some flag ↔ flag.text = text := by
  constructor
  · intro h
    simpa using List.find?_some h
  · rintro rfl
    cases flag <;> decide

theorem Flag.readValue?_text (flag : Flag) : readValue? flag.text = none := by
  cases flag <;> exact readValue?_of_dashes rfl

/-- What is a value is no flag. -/
theorem Flag.ofText?_eq_none {text : String} {value : Value} (h : readValue? text = some value) :
    Flag.ofText? text = none := by
  cases hflag : Flag.ofText? text with
  | none => rfl
  | some flag =>
    rw [← Flag.ofText?_eq_some_iff.mp hflag, flag.readValue?_text] at h
    cases h

/-! ### Words -/

/-- What stands on the command line of a run: the number of a flag, or a value. -/
inductive Item where
  | number (flag : Flag) (n : Nat)
  | argument (value : Value)

inductive Spell : List String → List Item → Prop where
  | nil : Spell [] []
  | number {flag : Flag} {text : String} {n : Nat} {words : List String} {items : List Item}
      (read : readNumber? text = some n) (rest : Spell words items) :
      Spell (flag.text :: text :: words) (.number flag n :: items)
  | argument {text : String} {value : Value} {words : List String} {items : List Item}
      (read : readValue? text = some value) (rest : Spell words items) :
      Spell (text :: words) (.argument value :: items)

namespace RunOptions

variable {o o' : RunOptions} {words : List String} {items : List Item}

def add (o : RunOptions) : Item → RunOptions
  | .number flag n => o.set n flag
  | .argument value => o.addArgument value

theorem readFrom_of_spell (h : Spell words items) : o.readFrom words = .ok (items.foldl add o) := by
  induction h generalizing o with
  | nil => rfl
  | @number flag text n words items hread _ ih =>
    rw [readFrom, Flag.ofText?_eq_some_iff.mpr rfl]
    simp only [hread]
    exact ih
  | @argument text value words items hread hrest ih =>
    have hword := readWord_eq_ok_iff.mpr hread
    cases words with
    | nil =>
      cases hrest
      rw [readFrom, Flag.ofText?_eq_none hread]
      simp only [hword]
      rfl
    | cons next words =>
      rw [readFrom, Flag.ofText?_eq_none hread]
      simp only [hword]
      exact ih

theorem spell_of_readFrom (h : o.readFrom words = .ok o') :
    ∃ items, Spell words items ∧ items.foldl add o = o' := by
  fun_induction readFrom o words with
  | case1 o => exact ⟨[], .nil, Except.ok.inj h⟩
  | case2 o word flag hflag => cases h
  | case3 o word hflag =>
    cases hword : readWord word with
    | error problem =>
      rw [hword] at h
      cases h
    | ok value =>
      rw [hword] at h
      exact ⟨[.argument value], .argument (readWord_eq_ok_iff.mp hword) .nil, Except.ok.inj h⟩
  | case4 o word next rest flag hflag n hn ih =>
    obtain rfl := Flag.ofText?_eq_some_iff.mp hflag
    obtain ⟨items, hspell, hfold⟩ := ih h
    exact ⟨.number flag n :: items, .number hn hspell, hfold⟩
  | case5 o word next rest flag hflag hn => cases h
  | case6 o word next rest hflag value hword ih =>
    obtain ⟨items, hspell, hfold⟩ := ih h
    exact ⟨.argument value :: items, .argument (readWord_eq_ok_iff.mp hword) hspell, hfold⟩
  | case7 o word next rest hflag problem hword => cases h

/-- **Words are accepted exactly if they spell items**, and then the options are these items. -/
theorem read_eq_ok_iff :
    read words = .ok o ↔ ∃ items, Spell words items ∧ items.foldl add {} = o := by
  constructor
  · exact spell_of_readFrom
  · rintro ⟨items, hspell, rfl⟩
    exact readFrom_of_spell hspell

end RunOptions

end StackMachine.CommandLine
