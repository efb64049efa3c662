import ShellToC.Proofs.CToken
import ShellToC.Proofs.TextParts
import ShellToC.Text.Decimal

/-
  This file reads numerals: those of any base that stand in
  expressions, and the number that a text starts with, as
  `strtol` reads it in base ten.

  A numeral that is read when a test is translated is read as
  the same number when the program runs.

  Key definitions include:
    * `Numeral.split`
    * `Numeral.value?`
    * `Text.strtol`

  Main declarations:
    * `Numeral.value?_ofNat`
    * `Text.strtol_of_unsigned`
    * `Text.strtol_of_dropWhile`
-/

namespace ShellToC

------------------------------------------------------------
-- Numerals
------------------------------------------------------------

namespace Numeral

/- The base of a numeral, and its digits. -/
def split : Text → Nat × Text
  | '0' :: 'x' :: digits => (16, digits)
  | '0' :: 'X' :: digits => (16, digits)
  | '0' :: digits => (8, '0' :: digits)
  | digits => (10, digits)

/- What a digit counts.  No base has a digit that counts sixteen. -/
def digitValue
    (c : Char) : Nat :=
  if c.isDigit then
    c.toNat - 48
  else if 97 ≤ c.toNat ∧ c.toNat ≤ 102 then
    c.toNat - 87
  else if 65 ≤ c.toNat ∧ c.toNat ≤ 70 then
    c.toNat - 55
  else
    16

/- The number that digits of a base denote. -/
def ofDigits?
    (base : Nat)
    (digits : Text) : Option Nat :=
  if digits ≠ [] ∧ digits.all (digitValue · < base) then
    some (digits.foldl
      (fun value c => base * value + digitValue c) 0)
  else
    none

/- The number that a numeral of any base denotes. -/
def value?
    (numeral : Text) : Option Nat :=
  ofDigits? (split numeral).1 (split numeral).2

theorem toNat_of_isDigit
    {c : Char}
    (h : c.isDigit = true) :
    48 ≤ c.toNat ∧ c.toNat ≤ 57 := by
  simpa [Char.isDigit, UInt32.le_iff_toNat_le] using h

theorem digitValue_of_isDigit
    {c : Char}
    (h : c.isDigit = true) :
    digitValue c = c.toNat - 48 := by
  rw [digitValue, if_pos h]

/- Digits of base ten are read as the library reads them. -/
theorem ofDigits?_ten
    {digits : Text}
    (hNonempty : digits ≠ [])
    (hDigits : digits.all Char.isDigit = true) :
    ofDigits? 10 digits =
      some (Nat.ofDigitChars 10 digits 0) := by
  have hSmall : digits.all (digitValue · < 10) = true := by
    rw [List.all_eq_true] at hDigits ⊢
    intro c hc
    have hRange := toNat_of_isDigit (hDigits c hc)
    rw [digitValue_of_isDigit (hDigits c hc)]
    simp only [decide_eq_true_eq]
    omega
  have hFold (value : Nat) : digits.foldl
      (fun value c => 10 * value + digitValue c) value =
        Nat.ofDigitChars 10 digits value := by
    clear hNonempty hSmall
    induction digits generalizing value with
    | nil => rfl
    | cons c digits ih =>
        simp only [List.all_cons, Bool.and_eq_true] at hDigits
        rw [List.foldl_cons, Nat.ofDigitChars_cons,
          digitValue_of_isDigit hDigits.1]
        exact ih hDigits.2 _
  rw [ofDigits?, if_pos ⟨hNonempty, hSmall⟩, hFold]

end Numeral

------------------------------------------------------------
-- Written Numbers
------------------------------------------------------------

namespace Text

theorem all_isDigit_ofNat
    (n : Nat) :
    (ofNat n).all Char.isDigit = true := by
  rw [List.all_eq_true]
  intro c hc
  exact Nat.isDigit_of_mem_toDigits (by decide) (by decide) hc

/- A number other than zero does not start with the digit zero. -/
theorem head?_ofNat_ne_zero
    {n : Nat}
    (h : n ≠ 0) :
    (ofNat n).head? ≠ some '0' := by
  induction n using Nat.strongRecOn with
  | ind n ih =>
      unfold ofNat at ih ⊢
      by_cases hSmall : n < 10
      · rw [Nat.toDigits_of_lt_base hSmall]
        simpa using h
      · have hFront : (Nat.toDigits 10 (n / 10)).head? ≠
            some '0' := ih (n / 10) (by omega) (by omega)
        rw [Nat.toDigits_of_base_le (by decide) (by omega),
          List.head?_append]
        cases hHead : (Nat.toDigits 10 (n / 10)).head? with
        | none =>
            exact absurd (List.head?_eq_none_iff.mp hHead)
              Nat.toDigits_ne_nil
        | some c => rwa [hHead] at hFront

end Text

namespace Numeral

/- What does not start with the digit zero is a numeral of base ten. -/
theorem split_of_head?
    {numeral : Text}
    (h : numeral.head? ≠ some '0') :
    split numeral = (10, numeral) := by
  unfold split
  split
  · simp at h
  · simp at h
  · simp at h
  · rfl

theorem split_ofNat
    {n : Nat}
    (h : n ≠ 0) :
    split (Text.ofNat n) = (10, Text.ofNat n) :=
  split_of_head? (Text.head?_ofNat_ne_zero h)

/- A number is read back from its digits. -/
theorem value?_ofNat
    (n : Nat) :
    value? (Text.ofNat n) = some n := by
  by_cases hZero : n = 0
  · subst hZero
    decide
  · have hDigits : Text.ofNat n ≠ [] := Nat.toDigits_ne_nil
    rw [value?, split_ofNat hZero]
    exact (ofDigits?_ten hDigits (Text.all_isDigit_ofNat n)).trans
      (congrArg some Nat.ofDigitChars_ten_toDigits)

theorem isDigit_of_digitValue_lt
    {c : Char}
    (h : digitValue c < 10) :
    c.isDigit = true := by
  unfold digitValue at h
  split at h
  · assumption
  split at h
  · omega
  split at h
  · omega
  · contradiction

/- Whether a numeral is the digit zero, or does not start with it. -/
def isDecimal
    (numeral : Text) : Bool :=
  numeral.head? != some '0' || numeral == ['0']

/- A decimal numeral is made of digits, and is read in base ten. -/
theorem value?_of_isDecimal
    {numeral : Text}
    {n : Nat}
    (hDecimal : isDecimal numeral = true)
    (h : value? numeral = some n) :
    numeral ≠ [] ∧ numeral.all Char.isDigit = true ∧
      Nat.ofDigitChars 10 numeral 0 = n := by
  rw [isDecimal, Bool.or_eq_true, bne_iff_ne, beq_iff_eq]
    at hDecimal
  rcases hDecimal with hHead | rfl
  · rw [value?, split_of_head? hHead] at h
    have hValid : numeral ≠ [] ∧
        numeral.all (digitValue · < 10) = true := by
      unfold ofDigits? at h
      split at h
      · assumption
      · contradiction
    have hDigits : numeral.all Char.isDigit = true := by
      rw [List.all_eq_true]
      intro c hc
      have hSmall := List.all_eq_true.mp hValid.2 c hc
      exact isDigit_of_digitValue_lt (by simpa using hSmall)
    rw [ofDigits?_ten hValid.1 hDigits, Option.some.injEq] at h
    exact ⟨hValid.1, hDigits, h⟩
  · cases h
    decide

end Numeral

------------------------------------------------------------
-- Leading Numbers
------------------------------------------------------------

namespace Text

/- The value of the digits that a text starts with. -/
def leadingNat
    (text : Text) : Nat :=
  Nat.ofDigitChars 10 (text.takeWhile Char.isDigit) 0

/- The integer of 64 bits that is closest to the given one. -/
def clampLong
    (n : Int) : Int :=
  max (-9223372036854775808) (min 9223372036854775807 n)

/-
  The number that a text starts with, read in base ten: white
  space, at most one sign, and digits.  It is brought into
  the range of 64 bits.
-/
def strtol
    (text : Text) : Int :=
  match text.dropWhile CToken.isSpace with
  | '-' :: rest => clampLong (-(leadingNat rest : Int))
  | '+' :: rest => clampLong (leadingNat rest)
  | rest => clampLong (leadingNat rest)

theorem strtol_range
    (text : Text) :
    -9223372036854775808 ≤ strtol text ∧
      strtol text ≤ 9223372036854775807 := by
  unfold strtol clampLong
  split <;> omega

theorem clampLong_of_range
    {n : Int}
    (hLeast : -9223372036854775808 ≤ n)
    (hGreatest : n ≤ 9223372036854775807) :
    clampLong n = n := by
  unfold clampLong
  omega

/- Behind the digits, the first other character ends the number. -/
theorem leadingNat_append
    {digits rest : Text}
    (hDigits : digits.all Char.isDigit = true)
    (hRest : rest.head?.any Char.isDigit = false) :
    leadingNat (digits ++ rest) =
      Nat.ofDigitChars 10 digits 0 := by
  have hTake : rest.takeWhile Char.isDigit = [] := by
    cases rest with
    | nil => rfl
    | cons c rest =>
        rw [List.takeWhile_cons_of_neg]
        simpa using hRest
  rw [leadingNat, List.takeWhile_append_of_pos
    (List.all_eq_true.mp hDigits), hTake, List.append_nil]

/- Whether the characters are ASCII characters other than zero. -/
def isPlain
    (text : Text) : Bool :=
  text.all fun c => 0 < c.toNat && c.toNat < 128

/- In ASCII, blanks are the white space of C. -/
theorem isSpace_eq_isBlank
    {c : Char}
    (h : c.toNat < 128) :
    CToken.isSpace c = isBlank c := by
  have hSpace : (c == ' ') = decide (c.toNat = 32) := by
    rw [Bool.beq_eq_decide_eq]
    exact decide_eq_decide.mpr (Char.toNat_inj (d := ' ')).symm
  rw [CToken.isSpace, hSpace, isBlank, Bool.eq_iff_iff]
  simp only [blankRanges, List.any_cons, List.any_nil,
    Bool.or_eq_true, Bool.and_eq_true, decide_eq_true_eq,
    Bool.or_false]
  omega

theorem toNat_of_isSpace
    {c : Char}
    (h : CToken.isSpace c = true) :
    0 < c.toNat ∧ c.toNat < 128 := by
  simp only [CToken.isSpace, Bool.or_eq_true, beq_iff_eq,
    Bool.and_eq_true, decide_eq_true_eq] at h
  rcases h with rfl | h
  · decide
  · omega

theorem isBlank_of_isSpace
    {c : Char}
    (h : CToken.isSpace c = true) :
    isBlank c = true := by
  rw [← isSpace_eq_isBlank (toNat_of_isSpace h).2]
  exact h

theorem dropWhile_isSpace
    {text : Text}
    (h : isPlain text = true) :
    text.dropWhile CToken.isSpace = trimStart text := by
  rw [trimStart]
  induction text with
  | nil => rfl
  | cons c text ih =>
      simp only [isPlain, List.all_cons, Bool.and_eq_true,
        decide_eq_true_eq] at h
      rw [List.dropWhile_cons, List.dropWhile_cons,
        isSpace_eq_isBlank h.1.2]
      split
      · exact ih h.2
      · rfl

/- No digit is a blank. -/
theorem isBlank_of_isDigit
    {c : Char}
    (h : c.isDigit = true) :
    isBlank c = false := by
  have hRange := Numeral.toNat_of_isDigit h
  rw [← isSpace_eq_isBlank (by omega)]
  simp only [CToken.isSpace, Bool.or_eq_false_iff,
    beq_eq_false_iff_ne, Bool.and_eq_false_imp,
    decide_eq_true_eq, decide_eq_false_iff_not]
  refine ⟨?_, by omega⟩
  rintro rfl
  contradiction

theorem head?_any_isDigit_of_blank
    {text : Text}
    (h : text.all isBlank = true) :
    text.head?.any Char.isDigit = false := by
  cases text with
  | nil => rfl
  | cons c text =>
      simp only [List.all_cons, Bool.and_eq_true] at h
      cases hDigit : c.isDigit with
      | false => simpa using hDigit
      | true =>
          have hBlank := isBlank_of_isDigit hDigit
          rw [h.1] at hBlank
          contradiction

theorem toNat?_eq_some_iff
    {digits : Text}
    {n : Nat} :
    toNat? digits = some n ↔
      digits ≠ [] ∧ digits.all Char.isDigit = true ∧
        Nat.ofDigitChars 10 digits 0 = n := by
  unfold toNat?
  split
  · rename_i h
    rw [Option.some.injEq]
    constructor
    · intro hn
      exact ⟨h.1, h.2, hn⟩
    · rintro ⟨-, -, hn⟩
      exact hn
  · rename_i h
    constructor
    · intro hn
      contradiction
    · rintro ⟨hNonempty, hDigits, -⟩
      exact absurd ⟨hNonempty, hDigits⟩ h

/- Without a sign, the number starts behind the white space. -/
theorem strtol_of_unsigned
    {text rest : Text}
    (hText : text.dropWhile CToken.isSpace = rest)
    (hMinus : rest.head? ≠ some '-')
    (hPlus : rest.head? ≠ some '+') :
    strtol text = clampLong (leadingNat rest) := by
  rw [strtol, hText]
  split
  · exact absurd rfl hMinus
  · exact absurd rfl hPlus
  · rfl

/- Digits are not taken for a sign. -/
theorem strtol_of_digits
    {text digits tail : Text}
    (hText : text.dropWhile CToken.isSpace = digits ++ tail)
    (hNonempty : digits ≠ [])
    (hDigits : digits.all Char.isDigit = true)
    (hTail : tail.head?.any Char.isDigit = false) :
    strtol text =
      clampLong (Nat.ofDigitChars 10 digits 0 : Nat) := by
  have hHead : ∀ c, (digits ++ tail).head? = some c →
      c.isDigit = true := by
    intro c hc
    cases digits with
    | nil => contradiction
    | cons d digits =>
        cases hc
        exact List.all_eq_true.mp hDigits _ List.mem_cons_self
  rw [strtol_of_unsigned hText, leadingNat_append hDigits hTail]
  · exact fun hSign => absurd (hHead _ hSign) (by decide)
  · exact fun hSign => absurd (hHead _ hSign) (by decide)

/-
  A numeral behind white space that fits into 64 bits is the
  number that its text starts with.
-/
theorem strtol_of_dropWhile
    {text : Text}
    {n : Int}
    (hSpace : text.dropWhile CToken.isSpace = trimStart text)
    (h : toInt64? (trim text) = some n) :
    strtol text = n := by
  rcases trimEnd_split (trimStart text) with
    ⟨tail, hTail, hStart⟩
  have hEnd := head?_any_isDigit_of_blank hTail
  have hText : text.dropWhile CToken.isSpace =
      trim text ++ tail := by
    rw [hSpace]
    exact hStart
  rw [toInt64?, Option.filter_eq_some_iff] at h
  rcases h with ⟨hInt, hRange⟩
  simp only [decide_eq_true_eq] at hRange
  have hLeast : -9223372036854775808 ≤ n := hRange.1
  have hGreatest : n ≤ 9223372036854775807 := hRange.2
  rw [← clampLong_of_range hLeast hGreatest]
  generalize trim text = numeral at hText hInt
  unfold toInt? at hInt
  split at hInt
  · rename_i digits
    cases hk : toNat? digits with
    | none => simp [hk] at hInt
    | some k =>
        rcases toNat?_eq_some_iff.mp hk with ⟨-, hDigits, rfl⟩
        have hn : -(Nat.ofDigitChars 10 digits 0 : Int) = n := by
          simpa [hk] using hInt
        rw [strtol, hText, ← hn]
        simp only [List.cons_append]
        rw [leadingNat_append hDigits hEnd]
  · rename_i digits
    rcases Option.map_eq_some_iff.mp hInt with ⟨k, hk, rfl⟩
    rcases toNat?_eq_some_iff.mp hk with ⟨-, hDigits, rfl⟩
    rw [strtol, hText]
    simp only [List.cons_append]
    rw [leadingNat_append hDigits hEnd]
    rfl
  · rcases Option.map_eq_some_iff.mp hInt with ⟨k, hk, rfl⟩
    rcases toNat?_eq_some_iff.mp hk with
      ⟨hNonempty, hDigits, rfl⟩
    exact strtol_of_digits hText hNonempty hDigits hEnd

theorem strtol_of_toInt64?
    {text : Text}
    {n : Int}
    (hPlain : isPlain text = true)
    (h : toInt64? (trim text) = some n) :
    strtol text = n :=
  strtol_of_dropWhile (dropWhile_isSpace hPlain) h

end Text

end ShellToC
