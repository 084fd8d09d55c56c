import StackMachine.Fault
import StackMachine.Proofs.Text.Detail

/-!
# Messages tell faults apart

A message is a phrase that belongs to the kind of fault, with the details of the fault put in
(`Fault.message_toList`).  To get the fault back from the message, the message is cut at its blanks
into words.  A word with neither digits nor capitals belongs to the phrase, and these words alone
give away the kind, since no two phrases have the same (`Fault.Kind.eq_of_fixedWords`).  The other
words are the details, and what each of them is about is known from the phrase.

So two faults with the same message are the same fault (`Fault.message_eq_iff`).
-/

namespace StackMachine

/-! ### Phrases -/

/-- A word of a phrase: a fixed one, or room for a detail between two marks of punctuation. -/
inductive Part where
  | fixed (word : String)
  | room (before : String) (type : DetailType) (after : String)

namespace Part

/-- What the details that go into a phrase have to be about. -/
def types (parts : List Part) : List DetailType :=
  parts.filterMap fun
    | .fixed _ => none
    | .room _ type _ => some type

def fixedWords (parts : List Part) : List (List Char) :=
  parts.filterMap fun
    | .fixed word => some word.toList
    | .room .. => none

/-- The words of a phrase after the details are put in, from left to right. -/
def fill : List Part → List Detail → List (List Char)
  | .fixed word :: parts, details => word.toList :: fill parts details
  | .room before _ after :: parts, detail :: details =>
    (before ++ detail.text ++ after).toList :: fill parts details
  | _, _ => []

/-- A fixed word is one word without digits and capitals, and punctuation has no blanks. -/
def Plain : Part → Prop
  | .fixed word => ' ' ∉ word.toList ∧ hasMark word.toList = false
  | .room before _ after => ' ' ∉ before.toList ∧ ' ' ∉ after.toList

instance : DecidablePred Plain
  | .fixed _ => inferInstanceAs (Decidable (_ ∧ _))
  | .room .. => inferInstanceAs (Decidable (_ ∧ _))

variable {parts : List Part} {details details' : List Detail}

theorem hasMark_room (before : String) (detail : Detail) (after : String) :
    hasMark (before ++ detail.text ++ after).toList = true := by
  have hmark : hasMark detail.text.toList = true := detail.hasMark_text
  rw [hasMark] at hmark ⊢
  rw [String.toList_append, String.toList_append, List.any_append, List.any_append, hmark,
    Bool.or_true, Bool.true_or]

theorem blank_notMem_of_mem_fill (hplain : ∀ part ∈ parts, part.Plain) :
    ∀ word ∈ fill parts details, ' ' ∉ word := by
  fun_induction fill parts details with
  | case1 word parts details ih =>
    rw [List.forall_mem_cons] at hplain ⊢
    exact ⟨hplain.1.1, ih hplain.2⟩
  | case2 before type after parts detail details ih =>
    rw [List.forall_mem_cons] at hplain ⊢
    refine ⟨?_, ih hplain.2⟩
    have hdetail : ' ' ∉ detail.text.toList := notMem_of_unbroken detail.unbroken_text (by decide)
    simp only [String.toList_append, List.mem_append, not_or]
    exact ⟨⟨hplain.1.1, hdetail⟩, hplain.1.2⟩
  | case3 => exact fun _ hmem => absurd hmem List.not_mem_nil

/-- The fixed words of a phrase are the words without digits and capitals. -/
theorem filter_fill (hplain : ∀ part ∈ parts, part.Plain)
    (hfit : details.map Detail.type = types parts) :
    (fill parts details).filter (!hasMark ·) = fixedWords parts := by
  induction parts generalizing details with
  | nil => rfl
  | cons part parts ih =>
    rw [List.forall_mem_cons] at hplain
    cases part with
    | fixed word =>
      rw [fill, List.filter_cons_of_pos (by rw [hplain.1.2]; rfl), ih hplain.2 hfit]
      rfl
    | room before type after =>
      -- `hfit` leaves no room of the phrase without a detail.
      cases details with
      | nil => cases hfit
      | cons detail details =>
        rw [fill, List.filter_cons_of_neg (by rw [hasMark_room]; decide)]
        exact ih hplain.2 (List.cons.inj hfit).2

/-- Details can be told from the words of the phrase that they went into. -/
theorem eq_of_fill_eq (hfit : details.map Detail.type = types parts)
    (hfit' : details'.map Detail.type = types parts)
    (h : fill parts details = fill parts details') : details = details' := by
  induction parts generalizing details details' with
  | nil => rw [List.map_eq_nil_iff.mp hfit, List.map_eq_nil_iff.mp hfit']
  | cons part parts ih =>
    cases part with
    | fixed word => exact ih hfit hfit' (List.cons.inj h).2
    | room before type after =>
      match details, details' with
      | detail :: details, detail' :: details' =>
        obtain ⟨htype, hfit⟩ := List.cons.inj hfit
        obtain ⟨htype', hfit'⟩ := List.cons.inj hfit'
        obtain ⟨hword, hwords⟩ := List.cons.inj h
        simp only [String.toList_append, List.append_cancel_right_eq,
          List.append_cancel_left_eq] at hword
        rw [Detail.eq_of_text_eq (htype.trans htype'.symm) (String.toList_inj.mp hword),
          ih hfit hfit' hwords]

end Part

namespace Fault

/-! ### Kinds and details -/

/-- The details of a fault, in the order in which its message has them. -/
def details : Fault → List Detail
  | unassignedCode ⟨function, position⟩ code => [.code code, .number function, .number position]
  | missingOperand ⟨function, position⟩ opcode | unexpectedOperand ⟨function, position⟩ opcode =>
    [.opcode opcode, .number function, .number position]
  | wrongOperandKind ⟨function, position⟩ opcode expected =>
    [.opcode opcode, .operandKind expected, .number function, .number position]
  | badBranchTarget ⟨function, position⟩ index bound | badSlotIndex ⟨function, position⟩ index bound
  | badFunctionIndex ⟨function, position⟩ index bound =>
    [.integer index, .number function, .number position, .number bound]
  | noOutputs function => [.number function]
  | tooFewValues ⟨function, position⟩ required available =>
    [.number function, .number position, .number required, .number available]
  | wrongValueType ⟨function, position⟩ expected found =>
    [.number function, .number position, .valueType expected, .valueType found]
  | wrongArgumentType function index expected found
  | wrongOutputType function index expected found =>
    [.number index, .number function, .valueType expected, .valueType found]
  | wrongOutputCount function expected found =>
    [.number function, .number expected, .number found]
  | unsetSlot ⟨function, position⟩ n | callDepthExceeded ⟨function, position⟩ n
  | stackOverflow ⟨function, position⟩ n => [.number n, .number function, .number position]
  | noSuchEntry index functions => [.number index, .number functions]

def ofDetails? : Kind → List Detail → Option Fault
  | .unassignedCode, [.code code, .number function, .number position] =>
    some (.unassignedCode ⟨function, position⟩ code)
  | .missingOperand, [.opcode opcode, .number function, .number position] =>
    some (.missingOperand ⟨function, position⟩ opcode)
  | .wrongOperandKind, [.opcode opcode, .operandKind expected, .number function,
      .number position] =>
    some (.wrongOperandKind ⟨function, position⟩ opcode expected)
  | .unexpectedOperand, [.opcode opcode, .number function, .number position] =>
    some (.unexpectedOperand ⟨function, position⟩ opcode)
  | .badBranchTarget, [.integer target, .number function, .number position, .number length] =>
    some (.badBranchTarget ⟨function, position⟩ target length)
  | .badSlotIndex, [.integer index, .number function, .number position, .number slots] =>
    some (.badSlotIndex ⟨function, position⟩ index slots)
  | .badFunctionIndex, [.integer index, .number function, .number position, .number functions] =>
    some (.badFunctionIndex ⟨function, position⟩ index functions)
  | .noOutputs, [.number function] => some (.noOutputs function)
  | .tooFewValues, [.number function, .number position, .number required, .number available] =>
    some (.tooFewValues ⟨function, position⟩ required available)
  | .wrongValueType, [.number function, .number position, .valueType expected,
      .valueType found] =>
    some (.wrongValueType ⟨function, position⟩ expected found)
  | .wrongArgumentType, [.number parameter, .number function, .valueType expected,
      .valueType found] =>
    some (.wrongArgumentType function parameter expected found)
  | .wrongOutputCount, [.number function, .number expected, .number found] =>
    some (.wrongOutputCount function expected found)
  | .wrongOutputType, [.number output, .number function, .valueType expected,
      .valueType found] =>
    some (.wrongOutputType function output expected found)
  | .unsetSlot, [.number slot, .number function, .number position] =>
    some (.unsetSlot ⟨function, position⟩ slot)
  | .callDepthExceeded, [.number limit, .number function, .number position] =>
    some (.callDepthExceeded ⟨function, position⟩ limit)
  | .stackOverflow, [.number limit, .number function, .number position] =>
    some (.stackOverflow ⟨function, position⟩ limit)
  | .noSuchEntry, [.number index, .number functions] => some (.noSuchEntry index functions)
  | _, _ => none

/-- Kind and details are all there is to a fault. -/
theorem ofDetails?_details (fault : Fault) : ofDetails? fault.kind fault.details = some fault := by
  cases fault <;> rfl

/-! ### The phrase of a kind -/

def fixed (words : List String) : List Part :=
  words.map .fixed

/-- A place, with a mark of punctuation after it. -/
def sitePhrase (after : String) : List Part :=
  fixed ["in", "function"] ++ [.room "" .number ""] ++ fixed ["at", "instruction"] ++
    [.room "" .number after]

def expectationPhrase (type : DetailType) : List Part :=
  [.fixed "expected", .room "" type ",", .fixed "found", .room "" type ""]

def Kind.phrase : Kind → List Part
  | .unassignedCode =>
    fixed ["invalid", "instruction", "code"] ++ [.room "" .code ""] ++ sitePhrase ""
  | .missingOperand =>
    [.room "" .opcode ""] ++ fixed ["requires", "an", "operand"] ++ sitePhrase ""
  | .wrongOperandKind =>
    [.room "" .opcode "", .fixed "expects", .fixed "a", .room "" .operandKind "",
      .fixed "operand"] ++ sitePhrase ""
  | .unexpectedOperand =>
    [.room "" .opcode ""] ++ fixed ["takes", "no", "operand"] ++ sitePhrase ""
  | .badBranchTarget =>
    fixed ["invalid", "branch", "destination"] ++ [.room "" .integer ""] ++ sitePhrase "" ++
      [.room "(" .number "", .fixed "instructions)"]
  | .badSlotIndex =>
    fixed ["invalid", "variable", "index"] ++ [.room "" .integer ""] ++ sitePhrase "" ++
      [.room "(" .number "", .fixed "slots)"]
  | .badFunctionIndex =>
    fixed ["invalid", "function", "index"] ++ [.room "" .integer ""] ++ sitePhrase "" ++
      [.room "(" .number "", .fixed "functions)"]
  | .noOutputs =>
    [.fixed "function", .room "" .number ""] ++ fixed ["declares", "no", "return", "value"]
  | .tooFewValues =>
    fixed ["too", "few", "elements", "on", "stack"] ++ sitePhrase ":" ++
      [.fixed "need", .room "" .number ",", .fixed "have", .room "" .number ""]
  | .wrongValueType =>
    fixed ["incorrect", "element", "type", "on", "stack"] ++ sitePhrase ":" ++
      expectationPhrase .valueType
  | .wrongArgumentType =>
    fixed ["incorrect", "argument", "type", "for", "parameter"] ++ [.room "" .number ""] ++
      fixed ["of", "function"] ++ [.room "" .number ":"] ++ expectationPhrase .valueType
  | .wrongOutputCount =>
    fixed ["incorrect", "number", "of", "return", "values", "from", "function"] ++
      [.room "" .number ":"] ++ expectationPhrase .number
  | .wrongOutputType =>
    fixed ["incorrect", "type", "for", "return", "value"] ++ [.room "" .number ""] ++
      fixed ["of", "function"] ++ [.room "" .number ":"] ++ expectationPhrase .valueType
  | .unsetSlot =>
    [.fixed "variable", .room "" .number ""] ++ fixed ["read", "before", "being", "set"] ++
      sitePhrase ""
  | .callDepthExceeded =>
    fixed ["call", "depth", "exceeded", "limit"] ++ [.room "" .number ""] ++ sitePhrase ""
  | .stackOverflow =>
    fixed ["stack", "overflow", "(limit"] ++ [.room "" .number ")"] ++ sitePhrase ""
  | .noSuchEntry =>
    [.fixed "entry", .fixed "function", .room "" .number ""] ++ fixed ["does", "not", "exist"] ++
      [.room "(" .number "", .fixed "functions)"]

theorem Kind.plain_of_mem_phrase (kind : Kind) : ∀ part ∈ kind.phrase, part.Plain := by
  have h : ∀ kind ∈ all, ∀ part ∈ kind.phrase, part.Plain := by decide +kernel
  exact h kind kind.mem_all

theorem Kind.eq_of_fixedWords {kind kind' : Kind}
    (h : Part.fixedWords kind.phrase = Part.fixedWords kind'.phrase) : kind = kind' := by
  have hall : ∀ kind ∈ all, ∀ kind' ∈ all,
      Part.fixedWords kind.phrase = Part.fixedWords kind'.phrase → kind = kind' := by
    decide +kernel
  exact hall kind kind.mem_all kind' kind'.mem_all h

theorem details_fit (fault : Fault) :
    fault.details.map Detail.type = Part.types fault.kind.phrase := by
  cases fault <;> rfl

/-! ### Messages -/

def words (fault : Fault) : List (List Char) :=
  Part.fill fault.kind.phrase fault.details

/-- A message is its words with blanks between them. -/
theorem message_toList (fault : Fault) : fault.message.toList = [' '].intercalate fault.words := by
  -- For each kind, both sides come to the same characters around the same details.
  unfold message
  cases fault <;>
    simp [Site.text, expectation, words, kind, Kind.phrase, details, fixed, sitePhrase,
      expectationPhrase, Part.fill, Detail.text]

theorem words_ne_nil (fault : Fault) : fault.words ≠ [] := by
  cases fault <;> exact List.cons_ne_nil _ _

theorem splitOn_message (fault : Fault) : fault.message.toList.splitOn ' ' = fault.words := by
  rw [message_toList]
  exact List.splitOn_intercalate ' '
    (Part.blank_notMem_of_mem_fill fault.kind.plain_of_mem_phrase) fault.words_ne_nil

/-- The kind of a fault can be told from the words of its message. -/
theorem kind_eq_of_words_eq {f g : Fault} (h : f.words = g.words) : f.kind = g.kind := by
  have hfixed (fault : Fault) :
      fault.words.filter (!hasMark ·) = Part.fixedWords fault.kind.phrase :=
    Part.filter_fill fault.kind.plain_of_mem_phrase fault.details_fit
  exact Kind.eq_of_fixedWords (by rw [← hfixed f, h, hfixed g])

theorem details_eq_of_words_eq {f g : Fault} (h : f.words = g.words) : f.details = g.details := by
  have hkind : f.kind = g.kind := kind_eq_of_words_eq h
  have hfit : g.details.map Detail.type = Part.types f.kind.phrase := by
    rw [hkind, g.details_fit]
  rw [words, words, ← hkind] at h
  exact Part.eq_of_fill_eq f.details_fit hfit h

/-- **Messages are unambiguous.**  Faults with the same message agree in kind and in all details. -/
theorem message_eq_iff (f g : Fault) : f.message = g.message ↔ f = g := by
  constructor
  · intro h
    have hwords : f.words = g.words := by rw [← splitOn_message f, h, splitOn_message]
    have hkind : f.kind = g.kind := kind_eq_of_words_eq hwords
    have hdetails : f.details = g.details := details_eq_of_words_eq hwords
    exact Option.some.inj (by rw [← ofDetails?_details f, hkind, hdetails, ofDetails?_details])
  · exact congrArg message

end Fault

end StackMachine
