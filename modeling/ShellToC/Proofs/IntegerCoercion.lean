import ShellToC.Proofs.LiteralBytes
import ShellToC.Proofs.TestMeaning

/-
  This file is about the integers that literals of tests are
  taken for.

  A literal that is a numeral between blanks becomes a
  constant when the test is translated, and any other is read
  when the program runs.  The two readings give one number,
  unless the numeral stands behind a blank that C does not
  count as white space: then the program would read zero.

  A number of the program is compared as an integer even by
  the operators that compare strings.  So a literal equals it
  if the number that the literal starts with does, and that
  is a comparison of texts only for a literal that is written
  as this number.

  Key definitions include:
    * `World.number?`

  Main declarations:
    * `Text.eq_strtol_iff`
    * `Operand.constant_eq_strtol_iff`
    * `Text.forall_strtol_iff`
    * `Condition.number_compares_as_text_iff`
-/

namespace ShellToC

------------------------------------------------------------
-- Written Integers
------------------------------------------------------------

namespace Text

theorem toInt?_of_digits
    {digits : Text}
    (h : digits.all Char.isDigit = true) :
    toInt? digits = (toNat? digits).map Int.ofNat := by
  unfold toInt?
  split
  · exact absurd h (by simp)
  · exact absurd h (by simp)
  · rfl

theorem toNat?_ofNat
    (n : Nat) :
    toNat? (ofNat n) = some n :=
  toNat?_eq_some_iff.mpr ⟨Nat.toDigits_ne_nil,
    all_isDigit_ofNat n, Nat.ofDigitChars_ten_toDigits⟩

/- An integer is read back from its text. -/
theorem toInt?_ofInt
    (n : Int) :
    toInt? (ofInt n) = some n := by
  cases n with
  | ofNat n =>
      rw [ofInt, toInt?_of_digits (all_isDigit_ofNat n),
        toNat?_ofNat]
      rfl
  | negSucc n =>
      rw [ofInt, toInt?, toNat?_ofNat]
      rfl

theorem ofInt_inj
    {a b : Int} :
    ofInt a = ofInt b ↔ a = b := by
  constructor
  · intro h
    have hRead := toInt?_ofInt a
    rw [h, toInt?_ofInt] at hRead
    exact (Option.some.inj hRead).symm
  · exact congrArg ofInt

/- The text of an integer holds no blanks. -/
theorem all_not_isBlank_ofInt
    (n : Int) :
    (ofInt n).all (! isBlank ·) = true := by
  have hDigits (m : Nat) :
      (ofNat m).all (! isBlank ·) = true := by
    rw [List.all_eq_true]
    intro c hc
    rw [isBlank_of_isDigit
      (List.all_eq_true.mp (all_isDigit_ofNat m) c hc)]
    rfl
  cases n with
  | ofNat n => exact hDigits n
  | negSucc n =>
      rw [ofInt, List.all_cons, hDigits]
      decide

/- An integer of 64 bits is read back. -/
theorem toInt64?_trim_ofInt
    {n : Int}
    (hLeast : -9223372036854775808 ≤ n)
    (hGreatest : n ≤ 9223372036854775807) :
    toInt64? (trim (ofInt n)) = some n := by
  rw [trim_of_isTrimmed
      (isTrimmed_of_all (all_not_isBlank_ofInt n)),
    toInt64?, toInt?_ofInt, Option.filter_eq_some_iff]
  exact ⟨rfl, decide_eq_true ⟨hLeast, hGreatest⟩⟩

end Text

------------------------------------------------------------
-- Blanks before Numbers
------------------------------------------------------------

namespace Text

/- Blanks that are white space are passed over by both readers. -/
theorem dropWhile_isSpace_of_all
    {text : Text}
    (h : (text.takeWhile isBlank).all CToken.isSpace = true) :
    text.dropWhile CToken.isSpace = trimStart text := by
  rw [trimStart]
  induction text with
  | nil => rfl
  | cons c text ih =>
      by_cases hBlank : isBlank c = true
      · rw [List.takeWhile_cons_of_pos hBlank, List.all_cons,
          Bool.and_eq_true] at h
        rw [List.dropWhile_cons_of_pos h.1,
          List.dropWhile_cons_of_pos hBlank, ih h.2]
      · have hSpace : ¬ CToken.isSpace c = true :=
          mt isBlank_of_isSpace hBlank
        rw [List.dropWhile_cons_of_neg hSpace,
          List.dropWhile_cons_of_neg hBlank]

/- Where others are among them, white space ends at a blank. -/
theorem exists_blank_of_not_all
    {text : Text}
    (h : ¬ (text.takeWhile isBlank).all CToken.isSpace = true) :
    ∃ c rest, text.dropWhile CToken.isSpace = c :: rest ∧
      isBlank c = true := by
  induction text with
  | nil => simp at h
  | cons c text ih =>
      by_cases hBlank : isBlank c = true
      · rw [List.takeWhile_cons_of_pos hBlank, List.all_cons,
          Bool.and_eq_true, not_and] at h
        by_cases hSpace : CToken.isSpace c = true
        · rw [List.dropWhile_cons_of_pos hSpace]
          exact ih (h hSpace)
        · rw [List.dropWhile_cons_of_neg hSpace]
          exact ⟨c, text, rfl, hBlank⟩
      · rw [List.takeWhile_cons_of_neg hBlank] at h
        exact absurd List.all_nil h

/- A blank that is not white space is read as no number. -/
theorem strtol_of_not_all
    {text : Text}
    (h : ¬ (text.takeWhile isBlank).all CToken.isSpace = true) :
    strtol text = 0 := by
  rcases exists_blank_of_not_all h with
    ⟨c, rest, hText, hBlank⟩
  have hDigit : ¬ c.isDigit = true := by
    intro hDigit
    rw [isBlank_of_isDigit hDigit] at hBlank
    contradiction
  have hSign {d : Char} (hd : isBlank d = false) :
      (c :: rest).head? ≠ some d := by
    rw [List.head?_cons, ne_eq, Option.some.injEq]
    rintro rfl
    rw [hd] at hBlank
    contradiction
  rw [strtol_of_unsigned hText (hSign (by decide))
    (hSign (by decide)), leadingNat,
    List.takeWhile_cons_of_neg hDigit]
  decide

/-
  A numeral between blanks is the number that its text starts
  with, if it is zero or if all blanks in front of it are
  white space.
-/
theorem eq_strtol_iff
    {text : Text}
    {n : Int}
    (h : toInt64? (trim text) = some n) :
    n = strtol text ↔
      n = 0 ∨
        (text.takeWhile isBlank).all CToken.isSpace = true := by
  by_cases hAll :
      (text.takeWhile isBlank).all CToken.isSpace = true
  · have hSame := strtol_of_dropWhile
      (dropWhile_isSpace_of_all hAll) h
    exact iff_of_true hSame.symm (.inr hAll)
  · rw [strtol_of_not_all hAll, or_iff_left hAll]

end Text

------------------------------------------------------------
-- Constants
------------------------------------------------------------

namespace Operand

/- A literal that becomes a constant is the numeral of it. -/
theorem toInt64?_of_render
    {text : Text}
    {n : Int}
    (h : (literal text).intExpr.render = Text.ofInt n ++ "L") :
    Text.toInt64? (Text.trim text) = some n := by
  cases hNumeral : Text.toInt64? (Text.trim text) with
  | none =>
      -- A call ends with a parenthesis.
      have hLast := congrArg List.getLast? h
      simp [intExpr, hNumeral, IntExpr.render, callText,
        Text.ofString_eq] at hLast
      rw [← List.cons_append, List.getLast?_concat] at hLast
      exact absurd hLast (by decide)
  | some m =>
      simp only [intExpr, hNumeral, IntExpr.render] at h
      rw [Text.ofInt_inj.mp (List.append_cancel_right h)]

/-
  Where a literal becomes the constant of a number, the
  program could have read the literal instead, and would have
  read the number that its text starts with.  The two agree
  exactly if the number is zero or if all blanks in front of
  the numeral are white space of C.
-/
theorem constant_eq_strtol_iff
    (w : World)
    (text : Text)
    (n : Int)
    (hConstant : (literal text).intExpr.render =
      Text.ofInt n ++ "L") :
    w.utf8Value? (IntExpr.ofString (.literal text)).render =
        some (.ofStrtol text) ∧
      (n = text.strtol ↔
        n = 0 ∨ (text.takeWhile Text.isBlank).all
          CToken.isSpace = true) := by
  refine ⟨?_, Text.eq_strtol_iff (toInt64?_of_render hConstant)⟩
  rw [IntExpr.utf8Value?_render]
  exact IntExpr.utf8Int?_literal w text

/- A numeral behind a tab and before a wide blank. -/
theorem constant_eq_strtol_iff_of_tab :
    let w := World.ofEnv fun _ => none
    let text : Text := "\t-7\u00a0"
    (literal text).intExpr.render = Text.ofInt (-7) ++ "L" ∧
    w.utf8Value? (IntExpr.ofString (.literal text)).render =
      some (.ofStrtol text) ∧
    -7 = text.strtol := by
  intro w text
  have hExpr : (literal text).intExpr = .constant (-7) := by
    unfold text
    rw [Text.ofString_ofList]
    decide
  have hConstant : (literal text).intExpr.render =
      Text.ofInt (-7) ++ "L" := by
    rw [hExpr]
    rfl
  have hSpace : (text.takeWhile Text.isBlank).all
      CToken.isSpace = true := by
    unfold text
    rw [Text.ofString_ofList]
    decide
  rcases constant_eq_strtol_iff w text (-7) hConstant with
    ⟨hRead, hSame⟩
  exact ⟨hConstant, hRead, hSame.mpr (.inr hSpace)⟩

/-
  A numeral behind a wide blank becomes a constant, where the
  program would have read zero.
-/
theorem constant_of_wide_blank :
    let text : Text := "\u00a05"
    (literal text).intExpr.render = Text.ofInt 5 ++ "L" ∧
    text.strtol = 0 ∧
    ∀ w : World,
      w.utf8Value? (IntExpr.ofString (.literal text)).render =
        some (.ofStrtol text) := by
  intro text
  have hExpr : (literal text).intExpr = .constant 5 := by
    unfold text
    rw [Text.ofString_ofList]
    decide
  refine ⟨?_, ?_, ?_⟩
  · rw [hExpr]
    rfl
  · unfold text
    rw [Text.ofString_ofList]
    decide
  · intro w
    rw [IntExpr.utf8Value?_render]
    exact IntExpr.utf8Int?_literal w text

end Operand

------------------------------------------------------------
-- Numbers of Literals
------------------------------------------------------------

theorem World.holds_toInt
    (n : Int32) :
    CType.long.Holds n.toInt := by
  have hInt := (intOf n).holds
  unfold CType.Holds at hInt ⊢
  simp only [intOf, CType.least, CType.greatest] at hInt ⊢
  omega

namespace Text

/- The text of an integer starts with the integer. -/
theorem strtol_ofInt
    {n : Int}
    (h : CType.long.Holds n) :
    strtol (ofInt n) = n := by
  have hBlanks := all_not_isBlank_ofInt n
  have hNone : (ofInt n).takeWhile isBlank = [] := by
    cases hText : ofInt n with
    | nil => rfl
    | cons c rest =>
        rw [hText, List.all_cons, Bool.and_eq_true] at hBlanks
        exact List.takeWhile_cons_of_neg (by simpa using hBlanks.1)
  have hNumeral := toInt64?_trim_ofInt h.1 h.2
  refine ((eq_strtol_iff hNumeral).mpr (.inr ?_)).symm
  rw [hNone]
  rfl

/-
  Every number of the program equals the number of a literal
  exactly if its text equals the literal, where the literal
  is written as its number or no `int` has that number.
-/
theorem forall_strtol_iff
    (text : Text) :
    (∀ n : Int32, n.toInt = text.strtol ↔
      ofInt n.toInt = text) ↔
      text = ofInt text.strtol ∨
        ¬ CType.int.Holds text.strtol := by
  constructor
  · intro hAll
    by_cases hInt : CType.int.Holds text.strtol
    · have hWord : (Int32.ofInt text.strtol).toInt =
          text.strtol := by
        apply Int32.toInt_ofInt_of_le
        · exact hInt.1
        · exact Int.lt_add_one_of_le hInt.2
      have hText := (hAll (.ofInt text.strtol)).mp hWord
      rw [hWord] at hText
      exact .inl hText.symm
    · exact .inr hInt
  · intro hText n
    constructor
    · intro hNumber
      rcases hText with hText | hInt
      · rw [hNumber]
        exact hText.symm
      · exact absurd (hNumber ▸ (World.intOf n).holds) hInt
    · intro hWritten
      rw [← hWritten, strtol_ofInt (World.holds_toInt n)]

end Text

/-
  The C integer of a literal is the number that it starts
  with, where a numeral is neither behind a wide blank nor the
  least.
-/
theorem Operand.utf8Int?_literal
    (w : World)
    {text : Text}
    (hLeast : (literal text).isLeast = false)
    (hSame : ∀ n, Text.toInt64? (Text.trim text) = some n →
      n = text.strtol) :
    w.utf8Int? (literal text).intExpr.toC =
      some (.ofStrtol text) := by
  cases hNumeral : Text.toInt64? (Text.trim text) with
  | none =>
      have hExpr : (literal text).intExpr =
          .ofString (.literal text) := by
        simp [intExpr, hNumeral]
      rw [hExpr, IntExpr.utf8Int?_literal]
  | some n =>
      have hNumber := hSame n hNumeral
      subst hNumber
      have hExpr : (literal text).intExpr =
          .constant text.strtol := by
        simp [intExpr, hNumeral]
      rw [isLeast, hNumeral] at hLeast
      rw [hExpr, IntExpr.utf8Int?_constant,
        IntExpr.constantValue?_eq text.strtol_range, if_neg]
      · rfl
      · simpa using hLeast

------------------------------------------------------------
-- Numbers of the Program
------------------------------------------------------------

namespace World

/- The number of the program that an argument stands for. -/
def number?
    (w : World) : Argument → Option Int32
  | .var _ => none
  | .status => some w.status
  | .backgroundPid => some w.job

/- Both numbers of the program may be any. -/
theorem exists_number?
    {arg : Argument}
    (h : arg = .status ∨ arg = .backgroundPid)
    (n : Int32) :
    ∃ w : World, w.number? arg = some n := by
  refine ⟨{ World.ofEnv fun _ => none with
    status := n, job := n }, ?_⟩
  rcases h with rfl | rfl <;> rfl

end World

namespace Operand

theorem utf8Int?_value
    {w : World}
    {arg : Argument}
    {n : Int32}
    (h : w.number? arg = some n) :
    w.utf8Int? (value arg).intExpr.toC =
      some (World.intOf n) := by
  cases arg with
  | var name => contradiction
  | status =>
      cases h
      exact w.utf8Int?_of_int? (IntExpr.int?_toC w .status)
  | backgroundPid =>
      cases h
      exact w.utf8Int?_of_int?
        (IntExpr.int?_toC w .backgroundPid)

end Operand

theorem BoolExpr.utf8Value?_compareInts
    (w : World)
    (rel : Relation)
    (left right : IntExpr) :
    w.utf8Value? (compareInts rel left right).render =
      (w.utf8Int? left.toC).bind fun a =>
        (w.utf8Int? right.toC).bind fun b =>
          CInt.compare? rel a b := by
  have hRead :=
    (compareInts rel left right).spells_render.ofText?_eq
  rw [World.utf8Value?, hRead, Option.bind_some, toC,
    World.utf8Int?_binary]
  rfl

namespace Comparison

/- With a number of the program on one side, integers are compared. -/
theorem compare_of_stringExpr?
    (comparison : Comparison)
    {left right : Operand}
    (h : left.stringExpr? = none ∨ right.stringExpr? = none) :
    comparison.compare left right =
      .compareInts comparison.rel left.intExpr
        right.intExpr := by
  unfold compare
  split
  · rename_i hLeft hRight
    rw [hLeft, hRight] at h
    simp at h
  · rfl

/-
  A number of the program and a literal are equal if the
  number that the literal starts with is, whichever of them
  stands first.
-/
theorem utf8Value?_compare
    {w : World}
    {arg : Argument}
    {n : Int32}
    {left right : Operand}
    {text : Text}
    (equal : Bool)
    (hNumber : w.number? arg = some n)
    (hRead : w.utf8Int? (Operand.literal text).intExpr.toC =
      some (.ofStrtol text))
    (hSides : left = .value arg ∧ right = .literal text ∨
      right = .value arg ∧ left = .literal text) :
    w.utf8Value? (compare ⟨true, if equal then .eq else .ne⟩
        left right).render =
      some (.ofBool
        (decide (n.toInt = text.strtol) == equal)) := by
  have hString : (Operand.value arg).stringExpr? = none := by
    cases arg with
    | var name => contradiction
    | status => rfl
    | backgroundPid => rfl
  have hLong := World.holds_toInt n
  rcases hSides with ⟨rfl, rfl⟩ | ⟨rfl, rfl⟩
  · rw [compare_of_stringExpr? _ (.inl hString),
      BoolExpr.utf8Value?_compareInts,
      Operand.utf8Int?_value hNumber, hRead]
    have hCompare := @CInt.compare?_of_holds
      (if equal then .eq else .ne) (World.intOf n)
      (.ofStrtol text) hLong text.strtol_range
    rw [Relation.test_of_equal] at hCompare
    exact hCompare
  · rw [compare_of_stringExpr? _ (.inr hString),
      BoolExpr.utf8Value?_compareInts,
      Operand.utf8Int?_value hNumber, hRead]
    have hCompare := @CInt.compare?_of_holds
      (if equal then .eq else .ne) (.ofStrtol text)
      (World.intOf n) text.strtol_range hLong
    rw [Relation.test_of_equal,
      decide_eq_decide.mpr eq_comm] at hCompare
    exact hCompare

end Comparison

------------------------------------------------------------
-- Texts of Tests
------------------------------------------------------------

namespace Condition

/-
  A test that asks whether a number of the program and a
  literal are the same is translated.  In every world, the C
  text denotes whether the number is the one that the literal
  starts with.  Left out are numerals that are read as another
  number, and those of the least integer of 64 bits.

  So it compares the text of the number with the literal, in
  every world, exactly if the literal is written as the number
  that it starts with, or if no `int` has that number.
-/
theorem number_compares_as_text_iff
    (expr a op b lit : Text)
    (equal : Bool)
    (arg : Argument)
    (hWords : Word.split expr = [a, op, b])
    (hOp : (op, equal) ∈ Test.stringOps)
    (hArg : arg = .status ∨ arg = .backgroundPid)
    (hSides :
      Operand.ofWord a = .ok (.value arg) ∧
          Operand.ofWord b = .ok (.literal lit) ∨
        Operand.ofWord b = .ok (.value arg) ∧
          Operand.ofWord a = .ok (.literal lit))
    (hLeast : (Operand.literal lit).isLeast = false)
    (hSame : ∀ n, Text.toInt64? (Text.trim lit) = some n →
      n = lit.strtol) :
    ∃ e, ofText expr = .ok e ∧
      (∀ w n, World.number? w arg = some n →
        w.utf8Value? e.render =
          some (.ofBool
            (decide (n.toInt = lit.strtol) == equal))) ∧
      ((∀ w n, World.number? w arg = some n →
        ∃ v, w.utf8Value? e.render = some v ∧
          (v.value ≠ 0 ↔
            (decide (Text.ofInt n.toInt = lit) == equal) =
              true)) ↔
        lit = Text.ofInt lit.strtol ∨
          ¬ CType.int.Holds lit.strtol) := by
  have hRead : ∃ left right,
      Operand.ofWord a = .ok left ∧
      Operand.ofWord b = .ok right ∧
      (left = .value arg ∧ right = .literal lit ∨
        right = .value arg ∧ left = .literal lit) := by
    rcases hSides with ⟨ha, hb⟩ | ⟨hb, ha⟩
    · exact ⟨_, _, ha, hb, .inl ⟨rfl, rfl⟩⟩
    · exact ⟨_, _, ha, hb, .inr ⟨rfl, rfl⟩⟩
  rcases hRead with ⟨left, right, ha, hb, hOperands⟩
  have hValue (w : World) (n : Int32)
      (hn : w.number? arg = some n) :=
    Comparison.utf8Value?_compare equal hn
      (Operand.utf8Int?_literal w hLeast hSame) hOperands
  refine ⟨_, ?_, hValue, ?_⟩
  · rw [ofText, hWords, (Test.Reads.strings hOp a b).ofWords_eq]
    exact Test.ofWords_of_ofWord _ ha hb
  rw [← Text.forall_strtol_iff]
  constructor
  · intro hAll n
    rcases World.exists_number? hArg n with ⟨w, hw⟩
    rcases hAll w n hw with ⟨v, hv, hText⟩
    rw [hValue w n hw] at hv
    cases hv
    rw [CInt.value_ofBool_ne_zero] at hText
    cases equal with
    | true => simpa using hText
    | false => simpa [Decidable.not_iff_not] using hText
  · intro hAll w n hw
    refine ⟨_, hValue w n hw, ?_⟩
    rw [CInt.value_ofBool_ne_zero,
      decide_eq_decide.mpr (hAll n)]

/- A padded numeral before the number of the last job. -/
theorem number_compares_as_text_iff_of_padded :
    let expr : Text := "' 07' != $!"
    let lit : Text := " 07"
    Word.split expr = [Text.ofString "' 07'",
      Text.ofString "!=", Text.ofString "$!"] ∧
    (Text.ofString "!=", false) ∈ Test.stringOps ∧
    Operand.ofWord "$!" = .ok (.value .backgroundPid) ∧
    Operand.ofWord "' 07'" = .ok (.literal lit) ∧
    (Operand.literal lit).isLeast = false ∧
    (∀ n, Text.toInt64? (Text.trim lit) = some n →
      n = lit.strtol) ∧
    ∃ e, ofText expr = .ok e ∧
      (∀ w : World, w.utf8Value? e.render =
        some (.ofBool (decide (w.job.toInt = 7) == false))) ∧
      ¬ ∀ w : World, ∃ v, w.utf8Value? e.render = some v ∧
        (v.value ≠ 0 ↔
          (decide (Text.ofInt w.job.toInt = lit) == false) =
            true) := by
  intro expr lit
  have hWords : Word.split expr = [Text.ofString "' 07'",
      Text.ofString "!=", Text.ofString "$!"] := by
    decide +kernel
  have hOp : (Text.ofString "!=", false) ∈ Test.stringOps := by
    simp [Test.stringOps]
  have hJob : Operand.ofWord "$!" =
      .ok (.value .backgroundPid) :=
    eq_ok_of_toOption (by decide +kernel)
  have hLit : Operand.ofWord "' 07'" = .ok (.literal lit) :=
    eq_ok_of_toOption (by decide +kernel)
  have hLeast : (Operand.literal lit).isLeast = false := by
    decide +kernel
  have hNumber : lit.strtol = 7 := by decide +kernel
  have hSame : ∀ n, Text.toInt64? (Text.trim lit) = some n →
      n = lit.strtol := by
    have hNumeral : Text.toInt64? (Text.trim lit) = some 7 := by
      decide +kernel
    intro n hn
    rw [hNumeral] at hn
    cases hn
    exact hNumber.symm
  have hOther : ¬ (lit = Text.ofInt lit.strtol ∨
      ¬ CType.int.Holds lit.strtol) := by
    decide +kernel
  rcases number_compares_as_text_iff expr _ _ _ lit false
    .backgroundPid hWords hOp (.inr rfl) (.inr ⟨hJob, hLit⟩)
    hLeast hSame with ⟨e, hOk, hValue, hText⟩
  refine ⟨hWords, hOp, hJob, hLit, hLeast, hSame, e, hOk, ?_, ?_⟩
  · intro w
    rw [hValue w w.job rfl, hNumber]
  · intro hAll
    apply hOther
    rw [← hText]
    rintro w n ⟨⟩
    exact hAll w

/- The status zero equals two zeros, which is not its text. -/
theorem number_compares_as_padded :
    let w := World.ofEnv fun _ => none
    let expr : Text := "$? = 00"
    let text : Text := "(last_status == 0L)"
    (ofText expr).map BoolExpr.render = .ok text ∧
    w.utf8Value? text = some (.ofBool true) ∧
    Text.ofInt w.status.toInt ≠ Text.ofString "00" := by
  intro w expr text
  refine ⟨?_, ?_, ?_⟩
  · exact eq_ok_of_toOption (by decide +kernel)
  · decide +kernel
  · decide +kernel

end Condition

end ShellToC
