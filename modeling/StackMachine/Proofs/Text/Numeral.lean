import StackMachine.Text.Numeral

/-!
# Numerals are read back

What counts as a numeral can be said without reading it: digits, perhaps after a sign
(`Decimal.Unsigned`, `Decimal.Signed`).  No digit is a sign, so there is one way to read a text, and
a text is read exactly if it is a numeral for a number in range (`Decimal.readNat?_eq_some_iff`,
`Decimal.readInt64?_eq_some_iff`).

A number that is written in base ten is a numeral for itself, so it is read back
(`Decimal.readInt?_ofInt`, `Decimal.readInt64?_ofInt64`), and different numbers are written
differently (`Decimal.ofNat_injective`, `Decimal.ofInt64_injective`).  The digits of a code, read in
base sixteen, give the number of the code again, whatever zeros they are filled up with
(`Hexadecimal.value_drop_ofCode`), so two codes with the same numeral are the same
(`Hexadecimal.ofCode_injective`).

A text is cut into lines at its line breaks and into words at its blanks.  Numerals stay in one
piece, since they have neither (`unbroken`).
-/

namespace StackMachine

/-! ### Words -/

def isBreak (c : Char) : Bool := c = ' ' || c = '\n'

/-- Whether a word stays in one piece when a text is cut. -/
def unbroken (word : List Char) : Bool := word.all (!isBreak ·)

variable {word : List Char} {c : Char}

theorem unbroken_iff : unbroken word = true ↔ ∀ c ∈ word, isBreak c = false := by
  simp [unbroken]

theorem notMem_of_unbroken (h : unbroken word = true) (hc : isBreak c = true) : c ∉ word := by
  intro hmem
  rw [unbroken_iff.mp h c hmem] at hc
  cases hc

theorem isBreak_of_isDigit (h : c.isDigit = true) : isBreak c = false := by
  rw [isBreak, Bool.or_eq_false_iff, decide_eq_false_iff_not, decide_eq_false_iff_not]
  constructor
  · rintro rfl
    exact absurd h (by decide)
  · rintro rfl
    exact absurd h (by decide)

end StackMachine

namespace StackMachine.Decimal

/-! ### What is a numeral -/

/-- A non-empty run of digits, and the number that it stands for. -/
structure Digits (cs : List Char) (n : Nat) : Prop where
  ne_nil : cs ≠ []
  isDigit : ∀ c ∈ cs, c.isDigit = true
  value : Nat.ofDigitChars 10 cs 0 = n

/-- Digits, perhaps after a plus sign. -/
inductive Unsigned : List Char → Nat → Prop where
  | plain {cs : List Char} {n : Nat} (digits : Digits cs n) : Unsigned cs n
  | plus {cs : List Char} {n : Nat} (digits : Digits cs n) : Unsigned ('+' :: cs) n

/-- Digits, perhaps after a sign. -/
inductive Signed : List Char → Int → Prop where
  | unsigned {cs : List Char} {n : Nat} (numeral : Unsigned cs n) : Signed cs n
  | minus {cs : List Char} {n : Nat} (digits : Digits cs n) : Signed ('-' :: cs) (-n)

variable {cs : List Char} {text : String} {n bound : Nat} {i : Int}

theorem Digits.isDigit_head {c : Char} (h : Digits (c :: cs) n) : c.isDigit = true :=
  h.isDigit c List.mem_cons_self

theorem unsigned_plus_iff : Unsigned ('+' :: cs) n ↔ Digits cs n := by
  constructor
  · intro h
    cases h with
    | plain digits => exact absurd digits.isDigit_head (by decide)
    | plus digits => exact digits
  · exact .plus

theorem unsigned_iff_of_ne (h : ∀ rest, cs ≠ '+' :: rest) : Unsigned cs n ↔ Digits cs n := by
  constructor
  · intro hunsigned
    cases hunsigned with
    | plain digits => exact digits
    | @plus rest _ digits => exact absurd rfl (h rest)
  · exact .plain

theorem signed_minus_iff : Signed ('-' :: cs) i ↔ ∃ n : Nat, Digits cs n ∧ -n = i := by
  constructor
  · intro h
    cases h with
    | @unsigned _ n numeral =>
      have hdigits := (unsigned_iff_of_ne (by rintro rest ⟨⟩)).mp numeral
      exact absurd hdigits.isDigit_head (by decide)
    | @minus _ n digits => exact ⟨n, digits, rfl⟩
  · rintro ⟨n, digits, rfl⟩
    exact .minus digits

theorem signed_iff_of_ne (h : ∀ rest, cs ≠ '-' :: rest) :
    Signed cs i ↔ ∃ n : Nat, Unsigned cs n ∧ n = i := by
  constructor
  · intro hsigned
    cases hsigned with
    | @unsigned _ n numeral => exact ⟨n, numeral, rfl⟩
    | @minus rest _ digits => exact absurd rfl (h rest)
  · rintro ⟨n, numeral, rfl⟩
    exact .unsigned numeral

/-! ### Numerals are what is read -/

theorem digits?_eq_some_iff : digits? cs = some n ↔ Digits cs n := by
  have hcond : (!cs.isEmpty && cs.all Char.isDigit) = true ↔
      cs ≠ [] ∧ ∀ c ∈ cs, c.isDigit = true := by
    simp
  unfold digits?
  by_cases hdigits : cs ≠ [] ∧ ∀ c ∈ cs, c.isDigit = true
  · rw [if_pos (hcond.mpr hdigits), Option.some.injEq]
    exact ⟨fun hvalue => ⟨hdigits.1, hdigits.2, hvalue⟩, Digits.value⟩
  · rw [if_neg (mt hcond.mp hdigits)]
    refine ⟨?_, fun h => absurd ⟨h.ne_nil, h.isDigit⟩ hdigits⟩
    intro hnone
    cases hnone

theorem readNat?_eq_some_iff :
    readNat? bound text = some n ↔ Unsigned text.toList n ∧ n < bound := by
  unfold readNat?
  split
  · rename_i hplus
    rw [hplus, Option.filter_eq_some_iff, digits?_eq_some_iff, unsigned_plus_iff,
      decide_eq_true_iff]
  · rename_i hne
    rw [Option.filter_eq_some_iff, digits?_eq_some_iff, unsigned_iff_of_ne hne, decide_eq_true_iff]

theorem readInt?_eq_some_iff : readInt? text = some i ↔ Signed text.toList i := by
  unfold readInt?
  split
  · rename_i hplus
    rw [hplus, signed_iff_of_ne (by rintro rest ⟨⟩), Option.map_eq_some_iff]
    simp only [digits?_eq_some_iff, unsigned_plus_iff]
    rfl
  · rename_i hminus
    rw [hminus, signed_minus_iff, Option.map_eq_some_iff]
    simp only [digits?_eq_some_iff]
    rfl
  · rename_i hplus hminus
    rw [signed_iff_of_ne hminus, Option.map_eq_some_iff]
    simp only [digits?_eq_some_iff, unsigned_iff_of_ne hplus]
    rfl

theorem readInt64?_eq_some_iff {i : Int64} :
    readInt64? text = some i ↔ Signed text.toList i.toInt := by
  have hlow : Int64.minValue.toInt ≤ i.toInt := Int64.le_toInt i
  have hhigh : i.toInt ≤ Int64.maxValue.toInt := Int.le_of_lt_add_one (Int64.toInt_lt i)
  simp only [readInt64?, Option.map_eq_some_iff, Option.filter_eq_some_iff, decide_eq_true_iff,
    readInt?_eq_some_iff]
  constructor
  · rintro ⟨n, ⟨hsigned, hn⟩, rfl⟩
    rwa [Int64.toInt_ofInt_of_le hn.1 (Int.lt_of_le_sub_one hn.2)]
  · intro hsigned
    exact ⟨i.toInt, ⟨hsigned, hlow, hhigh⟩, Int64.ofInt_toInt i⟩

/-! ### Numbers that are written -/

theorem digits_toDigits (n : Nat) : Digits (Nat.toDigits 10 n) n where
  ne_nil := Nat.toDigits_ne_nil
  isDigit _ hc := Nat.isDigit_of_mem_toDigits (by decide) (by decide) hc
  value := Nat.ofDigitChars_ten_toDigits

theorem toList_ofNat (n : Nat) : (ofNat n).toList = Nat.toDigits 10 n :=
  String.toList_ofList

theorem toList_ofInt_negSucc (n : Nat) :
    (ofInt (.negSucc n)).toList = '-' :: Nat.toDigits 10 (n + 1) := by
  simp only [ofInt, ofNat, String.toList_append, String.toList_ofList]
  rfl

/-- A numeral consists of digits and at most a sign. -/
theorem eq_minus_or_isDigit {n : Int} {c : Char} (h : c ∈ (ofInt n).toList) :
    c = '-' ∨ c.isDigit = true := by
  cases n with
  | ofNat n =>
    rw [ofInt, toList_ofNat] at h
    exact .inr ((digits_toDigits n).isDigit c h)
  | negSucc n =>
    rw [toList_ofInt_negSucc, List.mem_cons] at h
    rcases h with hminus | hdigits
    · exact .inl hminus
    · exact .inr ((digits_toDigits (n + 1)).isDigit c hdigits)

theorem signed_ofInt (i : Int) : Signed (ofInt i).toList i := by
  cases i with
  | ofNat n =>
    rw [ofInt, toList_ofNat]
    exact .unsigned (.plain (digits_toDigits n))
  | negSucc n =>
    rw [toList_ofInt_negSucc]
    exact .minus (digits_toDigits (n + 1))

theorem unbroken_ofInt (i : Int) : unbroken (ofInt i).toList = true := by
  rw [unbroken_iff]
  intro c hc
  rcases eq_minus_or_isDigit hc with rfl | hdigit
  · decide
  · exact isBreak_of_isDigit hdigit

theorem exists_isDigit_ofInt (i : Int) : ∃ c ∈ (ofInt i).toList, c.isDigit = true := by
  have hdigits (n : Nat) : ∃ c ∈ Nat.toDigits 10 n, c.isDigit = true := by
    obtain ⟨c, hc⟩ := List.exists_mem_of_ne_nil _ (digits_toDigits n).ne_nil
    exact ⟨c, hc, (digits_toDigits n).isDigit c hc⟩
  cases i with
  | ofNat n =>
    rw [ofInt, toList_ofNat]
    exact hdigits n
  | negSucc n =>
    obtain ⟨c, hc, hdigit⟩ := hdigits (n + 1)
    rw [toList_ofInt_negSucc]
    exact ⟨c, List.mem_cons_of_mem _ hc, hdigit⟩

/-- **An integer is read back as it was written.** -/
theorem readInt?_ofInt (i : Int) : readInt? (ofInt i) = some i :=
  readInt?_eq_some_iff.mpr (signed_ofInt i)

theorem readInt64?_ofInt64 (i : Int64) : readInt64? (ofInt64 i) = some i :=
  readInt64?_eq_some_iff.mpr (signed_ofInt i.toInt)

theorem ofNat_injective : Function.Injective ofNat := by
  intro n m h
  rw [← (digits_toDigits n).value, ← toList_ofNat, h, toList_ofNat, (digits_toDigits m).value]

theorem ofInt64_injective : Function.Injective ofInt64 := by
  intro i j h
  exact Option.some.inj (by rw [← readInt64?_ofInt64 i, h, readInt64?_ofInt64])

end StackMachine.Decimal

namespace StackMachine.Hexadecimal

/-! ### The value of digits -/

def digitValue (c : Char) : Nat :=
  if c.isDigit then c.toNat - '0'.toNat else c.toNat - 'a'.toNat + 10

def value (cs : List Char) : Nat :=
  cs.foldl (fun n c => 16 * n + digitValue c) 0

theorem digitValue_digitChar : ∀ d < 16, digitValue (Nat.digitChar d) = d := by decide

theorem value_concat (cs : List Char) (c : Char) :
    value (cs ++ [c]) = 16 * value cs + digitValue c := by
  rw [value, List.foldl_append]
  rfl

theorem value_toDigits (n : Nat) : value (Nat.toDigits 16 n) = n := by
  induction n using Nat.strongRecOn with
  | ind n ih =>
    rw [Nat.toDigits_eq_if (by decide)]
    split
    · rename_i hn
      have hsingle : value [Nat.digitChar n] = digitValue (Nat.digitChar n) := Nat.zero_add _
      rw [hsingle, digitValue_digitChar n hn]
    · have hlast : n % 16 < 16 := Nat.mod_lt n (by decide)
      rw [value_concat, ih (n / 16) (by omega), digitValue_digitChar _ hlast]
      omega

/-- Zeros in front do not count. -/
theorem value_replicate_append (k : Nat) (cs : List Char) :
    value (List.replicate k '0' ++ cs) = value cs := by
  have hzeros : (List.replicate k '0').foldl (fun n c => 16 * n + digitValue c) 0 = 0 := by
    induction k with
    | zero => rfl
    | succ k ih => exact ih
  rw [value, List.foldl_append, hzeros]
  rfl

/-! ### The numeral of a code -/

theorem toList_ofCode (code : UInt16) :
    (ofCode code).toList = '0' :: 'x' :: (Nat.toDigits 16 code.toNat).leftpad 4 '0' := by
  simp only [ofCode, String.toList_append, String.toList_ofList]
  rfl

/-- Behind the mark, the numeral of a code stands for the number of the code. -/
theorem value_drop_ofCode (code : UInt16) : value ((ofCode code).toList.drop 2) = code.toNat := by
  rw [toList_ofCode]
  exact (value_replicate_append ..).trans (value_toDigits _)

theorem ofCode_injective : Function.Injective ofCode := by
  intro code code' h
  rw [← UInt16.toNat_inj, ← value_drop_ofCode code, h, value_drop_ofCode]

theorem mem_toDigits {n : Nat} {c : Char} (h : c ∈ Nat.toDigits 16 n) :
    ∃ d < 16, c = Nat.digitChar d := by
  induction n using Nat.strongRecOn with
  | ind n ih =>
    rw [Nat.toDigits_eq_if (by decide)] at h
    split at h
    · rename_i hn
      exact ⟨n, hn, List.mem_singleton.mp h⟩
    · rcases List.mem_append.mp h with hmem | hmem
      · exact ih (n / 16) (by omega) hmem
      · exact ⟨n % 16, Nat.mod_lt n (by decide), List.mem_singleton.mp hmem⟩

theorem unbroken_ofCode (code : UInt16) : unbroken (ofCode code).toList = true := by
  have hdigit : ∀ d < 16, isBreak (Nat.digitChar d) = false := by decide
  rw [unbroken_iff, toList_ofCode, List.leftpad]
  intro c hc
  simp only [List.mem_cons, List.mem_append, List.mem_replicate] at hc
  rcases hc with rfl | rfl | ⟨-, rfl⟩ | hmem
  · decide
  · decide
  · decide
  · obtain ⟨d, hd, rfl⟩ := mem_toDigits hmem
    exact hdigit d hd

end StackMachine.Hexadecimal
