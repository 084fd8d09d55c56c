import StackMachine.Function
import StackMachine.Proofs.CommandLine.RunOptions
import StackMachine.Proofs.Text.Detail

/-!
# Listings tell instructions apart

The text of an instruction is made of words with blanks between them: one word for an assigned
code, two for any other, and one more for the operand (`Instruction.text_toList`).  Cutting the text
at its blanks gives the words back.

A mnemonic is never the word `<unknown`, so the first word says how many words belong to the code,
and these determine it, whatever follows (`Instruction.codeWords_append_inj`).  What is left is the
operand, and it is written as values are (`Value.text_injective`).

The listing of a function has one instruction on a line.  No word contains a line break and no text
is empty, so the lines can be told from the listing, also if there are none
(`Instruction.splitOn_listing`).
-/

namespace StackMachine

/-! ### The texts of values -/

theorem Value.unbroken_text (v : Value) : unbroken v.text.toList = true := by
  cases v with
  | boolean b => cases b <;> decide
  | integer i => exact Decimal.unbroken_ofInt i.toInt

theorem Value.text_injective : Function.Injective Value.text := by
  intro v w h
  have hread : CommandLine.readValue? v.text = some w := by
    rw [h, CommandLine.readValue?_text]
  exact Option.some.inj ((CommandLine.readValue?_text v).symm.trans hread)

namespace Instruction

/-! ### The words of an instruction -/

def codeWords (code : UInt16) : List (List Char) :=
  match Opcode.ofCode? code with
  | some o => [o.mnemonic.toList]
  | none => ["<unknown".toList, (Hexadecimal.ofCode code ++ ">").toList]

def operandWords : Option Value → List (List Char)
  | some v => [v.text.toList]
  | none => []

def words (i : Instruction) : List (List Char) :=
  codeWords i.code ++ operandWords i.operand

/-- The text of an instruction is its words with blanks between them. -/
theorem text_toList (i : Instruction) : i.text.toList = [' '].intercalate i.words := by
  obtain ⟨code, operand⟩ := i
  simp only [text, opcode?, words, codeWords]
  cases Opcode.ofCode? code with
  | some o => cases operand <;> simp [operandWords]
  | none => cases operand <;> simp [operandWords]

theorem words_ne_nil (i : Instruction) : i.words ≠ [] := by
  rw [words, codeWords]
  split <;> exact List.cons_ne_nil _ _

theorem unbroken_of_mem_codeWords {code : UInt16} {word : List Char}
    (h : word ∈ codeWords code) : unbroken word = true := by
  rw [codeWords] at h
  split at h
  · rename_i o _
    rw [List.mem_singleton.mp h]
    exact o.unbroken_mnemonic
  · rcases List.mem_cons.mp h with rfl | hnumeral
    · decide
    · rw [List.mem_singleton.mp hnumeral, String.toList_append, unbroken, List.all_append,
        ← unbroken, Hexadecimal.unbroken_ofCode]
      rfl

theorem unbroken_of_mem_words {i : Instruction} {word : List Char} (h : word ∈ i.words) :
    unbroken word = true := by
  rcases List.mem_append.mp h with hcode | hoperand
  · exact unbroken_of_mem_codeWords hcode
  · cases hv : i.operand with
    | none =>
      rw [hv] at hoperand
      exact absurd hoperand List.not_mem_nil
    | some v =>
      rw [hv] at hoperand
      rw [List.mem_singleton.mp hoperand]
      exact v.unbroken_text

theorem splitOn_text (i : Instruction) : i.text.toList.splitOn ' ' = i.words := by
  rw [text_toList]
  exact List.splitOn_intercalate ' '
    (fun _ hword => notMem_of_unbroken (unbroken_of_mem_words hword) (by decide)) i.words_ne_nil

/-! ### Reading the words -/

/-- A word without digits and capitals is no mnemonic. -/
theorem mnemonic_ne_of_hasMark {word : List Char} (o : Opcode) (h : hasMark word = false) :
    o.mnemonic.toList ≠ word := by
  rintro rfl
  have hmark : hasMark o.mnemonic.toList = true := Detail.hasMark_text (.opcode o)
  rw [h] at hmark
  cases hmark

/-- The words of a code can be told from what follows them, and they determine the code. -/
theorem codeWords_append_inj {code code' : UInt16} {rest rest' : List (List Char)}
    (h : codeWords code ++ rest = codeWords code' ++ rest') : code = code' ∧ rest = rest' := by
  simp only [codeWords] at h
  cases hcode : Opcode.ofCode? code with
  | some o =>
    cases hcode' : Opcode.ofCode? code' with
    | some o' =>
      simp only [hcode, hcode'] at h
      obtain ⟨hname, hrest⟩ := List.cons.inj h
      have hopcode : o = o' := Opcode.mnemonic_injective (String.toList_inj.mp hname)
      refine ⟨?_, hrest⟩
      rw [← Opcode.code_of_ofCode? hcode, ← Opcode.code_of_ofCode? hcode', hopcode]
    | none =>
      simp only [hcode, hcode'] at h
      exact absurd (List.cons.inj h).1 (mnemonic_ne_of_hasMark o (by decide))
  | none =>
    cases hcode' : Opcode.ofCode? code' with
    | some o' =>
      simp only [hcode, hcode'] at h
      exact absurd (List.cons.inj h).1.symm (mnemonic_ne_of_hasMark o' (by decide))
    | none =>
      simp only [hcode, hcode'] at h
      obtain ⟨hnumeral, hrest⟩ := List.cons.inj (List.cons.inj h).2
      rw [String.toList_append, String.toList_append, List.append_cancel_right_eq] at hnumeral
      exact ⟨Hexadecimal.ofCode_injective (String.toList_inj.mp hnumeral), hrest⟩

theorem operandWords_injective : Function.Injective operandWords := by
  intro operand operand' h
  match operand, operand' with
  | none, none => rfl
  | some v, some w =>
    have htext : v.text = w.text := String.toList_inj.mp (List.cons.inj h).1
    rw [Value.text_injective htext]
  | some v, none => cases h
  | none, some w => cases h

theorem text_injective : Function.Injective text := by
  intro i j h
  have hwords : i.words = j.words := by rw [← splitOn_text i, h, splitOn_text]
  obtain ⟨hcode, hoperand⟩ := codeWords_append_inj hwords
  obtain ⟨code, operand⟩ := i
  obtain ⟨code', operand'⟩ := j
  obtain rfl : code = code' := hcode
  obtain rfl : operand = operand' := operandWords_injective hoperand
  rfl

/-! ### Lines -/

/-- The listing of code, one instruction on a line. -/
def listing (code : List Instruction) : String :=
  "\n".intercalate (code.map text)

theorem newline_notMem_intercalate {words : List (List Char)} (h : ∀ word ∈ words, '\n' ∉ word) :
    '\n' ∉ [' '].intercalate words := by
  induction words with
  | nil => exact List.not_mem_nil
  | cons word words ih =>
    rw [List.forall_mem_cons] at h
    cases words with
    | nil =>
      rw [List.intercalate_singleton]
      exact h.1
    | cons next words =>
      rw [List.intercalate_cons_cons]
      simp only [List.mem_append, not_or]
      exact ⟨⟨h.1, by decide⟩, ih h.2⟩

theorem newline_notMem_text (i : Instruction) : '\n' ∉ i.text.toList := by
  rw [text_toList]
  exact newline_notMem_intercalate fun _ hword =>
    notMem_of_unbroken (unbroken_of_mem_words hword) (by decide)

theorem text_ne_nil (i : Instruction) : i.text.toList ≠ [] := by
  intro h
  -- an empty text would have one word, the empty one
  have hwords : i.words = [[]] := by rw [← splitOn_text, h, List.splitOn_nil]
  rw [words, codeWords] at hwords
  split at hwords
  · rename_i o ho
    exact mnemonic_ne_of_hasMark o rfl (List.cons.inj hwords).1
  · exact absurd (List.cons.inj hwords).1 (by decide)

/-- The lines of a listing that are not empty are the texts of the instructions. -/
theorem splitOn_listing (code : List Instruction) :
    ((listing code).toList.splitOn '\n').filter (!·.isEmpty) =
      code.map fun i => i.text.toList := by
  have hlines : (listing code).toList = ['\n'].intercalate (code.map fun i => i.text.toList) := by
    rw [listing, String.toList_intercalate, List.map_map]
    rfl
  have hnewline : ∀ line ∈ code.map fun i => i.text.toList, '\n' ∉ line := by
    rw [List.forall_mem_map]
    exact fun i _ => i.newline_notMem_text
  have hfull : ∀ line ∈ code.map fun i => i.text.toList, (!line.isEmpty) = true := by
    rw [List.forall_mem_map]
    exact fun i _ => by simp [i.text_ne_nil]
  rw [hlines]
  by_cases hcode : code = []
  · -- nothing is listed, and cutting it gives one empty line
    rw [hcode]
    rfl
  · rw [List.splitOn_intercalate '\n' hnewline (by simpa using hcode),
      List.filter_eq_self.mpr hfull]

theorem listing_injective : Function.Injective listing := by
  intro code code' h
  have hlines : (code.map fun i => i.text.toList) = code'.map fun i => i.text.toList := by
    rw [← splitOn_listing code, h, splitOn_listing]
  refine (List.map_inj_right ?_).mp hlines
  intro i j hij
  exact text_injective (String.toList_inj.mp hij)

/-- **A text identifies its instruction.**  Instructions with the same text agree in code and
operand, whether the code is assigned or not.  So the texts of the instructions of a function
determine its code, and so does its listing as a whole. -/
theorem text_identifies_instruction :
    (∀ i j : Instruction, i.text = j.text ↔ i.code = j.code ∧ i.operand = j.operand) ∧
    (∀ f g : Definition, f.code.map text = g.code.map text ↔ f.code = g.code) ∧
    ∀ f g : Definition, listing f.code = listing g.code ↔ f.code = g.code := by
  refine ⟨?_, ?_, ?_⟩
  · rintro ⟨code, operand⟩ ⟨code', operand'⟩
    rw [text_injective.eq_iff, mk.injEq]
  · intro f g
    exact List.map_inj_right fun i j h => text_injective h
  · intro f g
    exact listing_injective.eq_iff

end Instruction

end StackMachine
