import Mathlib.Algebra.Group.Nat.Defs
import Mathlib.Data.List.Forall2
import StackMachine.Proofs.CommandLine.RunOptions

/-!
# The grammar of a run, and options written out

The words of a run are segments laid end to end, each of them a flag with an unsigned numeral or one
word for a value (`Segment`).  Reading accepts these lists of words and no others, and then each
flag has the last number that was given to it, or else its default, and the values are the arguments
in their order (`RunOptions.ofItems`).

So options can be written out in any way that gives each flag its number once and the arguments in
their order (`RunOptions.WritesOut`), and they are read back (`RunOptions.read_follows_grammar`).
-/

namespace StackMachine.CommandLine

/-! ### Segments -/

/-- The words of one item: a flag and a numeral that 64 bits can hold, or a word for a value. -/
inductive Segment : List String → Item → Prop where
  | number {flag : Flag} {text : String} {n : Nat} (numeral : Decimal.Unsigned text.toList n)
      (fits : n < 2 ^ 64) : Segment [flag.text, text] (.number flag n)
  | true : Segment ["true"] (.argument (.boolean true))
  | false : Segment ["false"] (.argument (.boolean false))
  | integer {text : String} {i : Int64} (numeral : Decimal.Signed text.toList i.toInt) :
      Segment [text] (.argument (.integer i))

section Reading

variable {text : String} {n : Nat} {value : Value} {words : List String} {items : List Item}

theorem readNumber?_eq_some_iff :
    readNumber? text = some n ↔ Decimal.Unsigned text.toList n ∧ n < 2 ^ 64 :=
  Decimal.readNat?_eq_some_iff

theorem segment_of_readValue? (h : readValue? text = some value) :
    Segment [text] (.argument value) := by
  unfold readValue? at h
  split at h
  · cases h
    exact .true
  · cases h
    exact .false
  · obtain ⟨i, hread, rfl⟩ := Option.map_eq_some_iff.mp h
    exact .integer (Decimal.readInt64?_eq_some_iff.mp hread)

theorem readValue?_of_signed {i : Int64} (h : Decimal.Signed text.toList i.toInt) :
    readValue? text = some (.integer i) := by
  have hread := Decimal.readInt64?_eq_some_iff.mpr h
  unfold readValue?
  split
  · cases hread
  · cases hread
  · rw [hread]
    rfl

/-- **Words spell items exactly if they are their segments**, laid end to end. -/
theorem spell_iff :
    Spell words items ↔
      ∃ segments, words = segments.flatten ∧ List.Forall₂ Segment segments items := by
  constructor
  · intro h
    induction h with
    | nil => exact ⟨[], rfl, .nil⟩
    | @number flag text n words items hread _ ih =>
      obtain ⟨segments, rfl, hsegments⟩ := ih
      obtain ⟨numeral, fits⟩ := readNumber?_eq_some_iff.mp hread
      exact ⟨[flag.text, text] :: segments, rfl, .cons (.number numeral fits) hsegments⟩
    | @argument text value words items hread _ ih =>
      obtain ⟨segments, rfl, hsegments⟩ := ih
      exact ⟨[text] :: segments, rfl, .cons (segment_of_readValue? hread) hsegments⟩
  · rintro ⟨segments, rfl, h⟩
    induction h with
    | nil => exact .nil
    | cons hsegment _ ih =>
      cases hsegment with
      | number numeral fits => exact .number (readNumber?_eq_some_iff.mpr ⟨numeral, fits⟩) ih
      | true => exact .argument rfl ih
      | false => exact .argument rfl ih
      | integer numeral => exact .argument (readValue?_of_signed numeral) ih

end Reading

/-! ### What the items come to -/

namespace Item

def number? (flag : Flag) : Item → Option Nat
  | .number flag' n => if flag' = flag then some n else none
  | .argument _ => none

def argument? : Item → Option Value
  | .number _ _ => none
  | .argument value => some value

theorem number?_number (flag : Flag) (n : Nat) : number? flag (.number flag n) = some n :=
  if_pos rfl

theorem number?_of_ne {flag flag' : Flag} (h : flag' ≠ flag) (n : Nat) :
    number? flag (.number flag' n) = none :=
  if_neg h

def words : Item → List String
  | .number flag n => [flag.text, Decimal.ofNat n]
  | .argument value => [value.text]

end Item

def lastNumber? (flag : Flag) (items : List Item) : Option Nat :=
  (items.filterMap (Item.number? flag)).getLast?

namespace RunOptions

def number (o : RunOptions) : Flag → Nat
  | .entry => o.entry
  | .maxDepth => o.limits.callDepth
  | .maxStack => o.limits.stackDepth

/-- The options that items come to: for each flag its last number or its default, and the values in
their order. -/
def ofItems (items : List Item) : RunOptions where
  entry := (lastNumber? .entry items).getD 0
  limits :=
    { callDepth := (lastNumber? .maxDepth items).getD 1024
      stackDepth := (lastNumber? .maxStack items).getD 4096 }
  arguments := items.filterMap Item.argument?

theorem ext_number {o o' : RunOptions} (hnumber : ∀ flag, o.number flag = o'.number flag)
    (harguments : o.arguments = o'.arguments) : o = o' := by
  obtain ⟨entry, ⟨callDepth, stackDepth⟩, arguments⟩ := o
  obtain ⟨entry', ⟨callDepth', stackDepth'⟩, arguments'⟩ := o'
  obtain rfl : entry = entry' := hnumber .entry
  obtain rfl : callDepth = callDepth' := hnumber .maxDepth
  obtain rfl : stackDepth = stackDepth' := hnumber .maxStack
  obtain rfl : arguments = arguments' := harguments
  rfl

theorem number_set (o : RunOptions) (n : Nat) (flag flag' : Flag) :
    (o.set n flag').number flag = if flag' = flag then n else o.number flag := by
  cases flag <;> cases flag' <;> rfl

theorem number_foldl_add (o : RunOptions) (items : List Item) (flag : Flag) :
    (items.foldl add o).number flag = (lastNumber? flag items).getD (o.number flag) := by
  induction items generalizing o with
  | nil => rfl
  | cons item items ih =>
    rw [List.foldl_cons, ih]
    cases item with
    | argument value => cases flag <;> rfl
    | number flag' n =>
      rw [add, number_set]
      by_cases hflag : flag' = flag
      · subst hflag
        rw [if_pos rfl, lastNumber?, lastNumber?,
          List.filterMap_cons_some (Item.number?_number flag' n), List.getLast?_cons,
          Option.getD_some]
      · rw [if_neg hflag, lastNumber?, lastNumber?,
          List.filterMap_cons_none (Item.number?_of_ne hflag n)]

theorem arguments_foldl_add (o : RunOptions) (items : List Item) :
    (items.foldl add o).arguments = o.arguments ++ items.filterMap Item.argument? := by
  induction items generalizing o with
  | nil => exact (List.append_nil _).symm
  | cons item items ih =>
    rw [List.foldl_cons, ih]
    cases item with
    | argument value => exact List.append_assoc ..
    | number flag n => cases flag <;> rfl

theorem foldl_add_eq (items : List Item) : items.foldl add {} = ofItems items := by
  refine ext_number ?_ (arguments_foldl_add {} items)
  intro flag
  rw [number_foldl_add]
  cases flag <;> rfl

/-! ### Options written out -/

/-- The items give each flag its number once, in any order and anywhere between the arguments. -/
structure WritesOut (o : RunOptions) (items : List Item) : Prop where
  numbers : ∀ flag, items.filterMap (Item.number? flag) = [o.number flag]
  arguments : items.filterMap Item.argument? = o.arguments

variable {o : RunOptions} {items : List Item} {n : Nat}

theorem WritesOut.eq_ofItems (h : o.WritesOut items) : ofItems items = o := by
  refine ext_number ?_ h.arguments
  intro flag
  cases flag <;> simp only [number, ofItems, lastNumber?, h.numbers, List.getLast?_singleton,
    Option.getD_some]

theorem segment_words_argument (value : Value) :
    Segment (Item.argument value).words (.argument value) :=
  segment_of_readValue? (readValue?_text value)

theorem segment_words_number (flag : Flag) (h : n < 2 ^ 64) :
    Segment (Item.number flag n).words (.number flag n) := by
  refine .number ?_ h
  rw [Decimal.toList_ofNat]
  exact .plain (Decimal.digits_toDigits n)

/-- What is written out spells what it was written from, if the numbers fit. -/
theorem WritesOut.spell (h : o.WritesOut items)
    (hfits : ∀ flag, o.number flag < 2 ^ 64) : Spell (items.flatMap Item.words) items := by
  refine spell_iff.mpr ⟨items.map Item.words, List.flatMap_def, ?_⟩
  rw [List.forall₂_map_left_iff, List.forall₂_same]
  intro item hitem
  cases item with
  | argument value => exact segment_words_argument value
  | number flag n =>
    have hmem : n ∈ items.filterMap (Item.number? flag) :=
      List.mem_filterMap.mpr ⟨.number flag n, hitem, Item.number?_number flag n⟩
    rw [h.numbers, List.mem_singleton] at hmem
    exact segment_words_number flag (hmem ▸ hfits flag)

/-- **Reading follows the grammar, and undoes writing.**  A list of words is accepted exactly if it
consists of segments, and then each flag has its last number or its default, and the values are the
arguments in their order.  Options whose numbers fit into 64 bits are read back from their flags and
arguments written out, in whatever order the flags stand and wherever they stand between the
arguments. -/
theorem read_follows_grammar :
    (∀ (words : List String) (o : RunOptions), read words = .ok o ↔
      ∃ segments items, words = segments.flatten ∧ List.Forall₂ Segment segments items ∧
        o = ofItems items) ∧
    ∀ (o : RunOptions) (items : List Item), (∀ flag, o.number flag < 2 ^ 64) →
      o.WritesOut items → read (items.flatMap Item.words) = .ok o := by
  refine ⟨?_, ?_⟩
  · intro words o
    rw [read_eq_ok_iff]
    constructor
    · rintro ⟨items, hspell, rfl⟩
      obtain ⟨segments, hwords, hsegments⟩ := spell_iff.mp hspell
      exact ⟨segments, items, hwords, hsegments, foldl_add_eq items⟩
    · rintro ⟨segments, items, hwords, hsegments, rfl⟩
      exact ⟨items, spell_iff.mpr ⟨segments, hwords, hsegments⟩, foldl_add_eq items⟩
  · intro o items hfits hwrites
    exact read_eq_ok_iff.mpr
      ⟨items, hwrites.spell hfits, (foldl_add_eq items).trans hwrites.eq_ofItems⟩

def scattered : RunOptions where
  entry := 1
  limits := { callDepth := 8, stackDepth := 64 }
  arguments := [.integer Int64.minValue, .boolean true]

def scatteredItems : List Item :=
  [.number .maxStack 64, .argument (.integer Int64.minValue), .number .entry 1,
    .argument (.boolean true), .number .maxDepth 8]

theorem scattered_read_back :
    (∀ flag, scattered.number flag < 2 ^ 64) ∧ scattered.WritesOut scatteredItems ∧
      read ["--max-stack", "64", "-9223372036854775808", "--entry", "1", "true", "--max-depth",
        "8"] = .ok scattered := by
  have hfits : ∀ flag, scattered.number flag < 2 ^ 64 := by
    intro flag
    cases flag <;> decide
  have hwrites : scattered.WritesOut scatteredItems := by
    refine ⟨?_, rfl⟩
    intro flag
    cases flag <;> rfl
  exact ⟨hfits, hwrites, read_follows_grammar.2 scattered scatteredItems hfits hwrites⟩

end RunOptions

end StackMachine.CommandLine
