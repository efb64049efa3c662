import ShellToC.Proofs.CValue
import ShellToC.Proofs.HelperCalls
import ShellToC.Proofs.References

/-
  This file says what the expressions of generated programs
  mean in C: which expression their text is read as, and
  which value it has.

  Each kind of expression has its value in a world, given
  part by part.  The text of an expression is read as a whole
  by what stands around it, so the value of its text is the
  one given here.

  Key definitions include:
    * `StringExpr.value?`
    * `IntExpr.value?`
    * `BoolExpr.value?`
    * `World.truth?`

  Main declarations:
    * `StringExpr.string?_toC`
    * `IntExpr.int?_toC`
    * `BoolExpr.truth?_render`
-/

namespace ShellToC

open CExpr

------------------------------------------------------------
-- Strings
------------------------------------------------------------

/- A name is made of ASCII characters. -/
theorem Text.isPlain_of_isName
    {name : Text}
    (h : isName name = true) :
    name.isPlain = true := by
  rw [isPlain, List.all_eq_true]
  intro c hc
  have hChar := List.all_eq_true.mp
    (all_isNameChar_of_isName h) c hc
  have hRange := Lexeme.toNat_of_isNameChar hChar
  simp only [Bool.and_eq_true, decide_eq_true_eq]
  omega

namespace StringExpr

/- The C expression that the text is read as. -/
def toC : StringExpr → CExpr
  | .literal text =>
      .literal '\x22' (Literal.escapeFrom false text)
  | .variable name =>
      .call Helper.var.name
        (.literal '\x22' (Literal.escapeFrom false name))
  | .temporary temp => .word temp.name

theorem spellsPrimary_render
    (e : StringExpr) :
    SpellsPrimary e.render e.toC := by
  cases e with
  | literal text => exact spellsPrimary_quote text
  | «variable» name =>
      exact ((spellsPrimary_quote name).spells 0).call
        Helper.var.isName_name
  | temporary temp =>
      exact spellsPrimary_name temp.isName_name

/- The string that the expression denotes. -/
def value?
    (w : World) : StringExpr → Option CString
  | .literal text => CString.ofText? text
  | .variable name =>
      (CString.ofText? name).map fun s => w.var s.text
  | .temporary _ => none

theorem value?_variable
    (w : World)
    {name : Text}
    (hName : Text.isName name = true) :
    (StringExpr.variable name).value? w = some (w.var name) := by
  have hString : CString.ofText? name = some ⟨name, _⟩ :=
    dif_pos (Text.isPlain_of_isName hName)
  simp [value?, hString]

/- A quoted text denotes the text. -/
theorem eval_quote
    (w : World)
    (text : Text) :
    w.eval (.literal '\x22' (Literal.escapeFrom false text)) =
      (CString.ofText? text).map .string := by
  simp [World.eval, CValue.ofLiteral?,
    Literal.decode?_escapeFrom]

theorem string?_toC
    (w : World)
    (e : StringExpr) :
    w.string? e.toC = e.value? w := by
  cases e with
  | literal text =>
      rw [toC, World.string?, eval_quote, value?]
      cases CString.ofText? text <;> rfl
  | «variable» name =>
      rw [toC, World.string?,
        w.eval_call _ _ Helper.var.ofName?_name, World.string?,
        eval_quote, value?]
      cases CString.ofText? name <;> rfl
  | temporary temp =>
      rw [toC, World.string?, World.eval, World.word?, value?]
      split
      · rfl
      split
      · rfl
      · rfl

end StringExpr

------------------------------------------------------------
-- Integers
------------------------------------------------------------

namespace CInt

/- The value of a constant with the suffix of `long`. -/
theorem ofConstant?_long
    (n : Nat) :
    ofConstant? (Text.ofNat n ++ "L") = ofInt? .long n := by
  have hSuffix : Text.ofString "L" = ['L'] :=
    Text.ofString_ofList _
  have hValue := Numeral.value?_ofNat n
  unfold ofConstant?
  rw [hSuffix]
  simp only [List.getLast?_concat, BEq.rfl, if_true,
    List.dropLast_concat, hValue, Option.bind_some]
  by_cases hZero : n = 0
  · subst hZero
    decide
  · rw [Numeral.split_ofNat hZero]
    cases hInt : ofInt? .long n <;>
      simp [constantTypes, hInt]

end CInt

namespace IntExpr

/- The C expression that the text is read as. -/
def toC : IntExpr → CExpr
  | .constant (.ofNat n) => .number (Text.ofNat n ++ "L")
  | .constant (.negSucc n) =>
      .unary .minus (.number (Text.ofNat (n + 1) ++ "L"))
  | .ofString e => .call Helper.int.name e.toC
  | .status => .word statusVariable
  | .backgroundPid => .word jobVariable

theorem spellsPrimary_long
    (n : Nat) :
    SpellsPrimary (Text.ofNat n ++ "L")
      (.number (Text.ofNat n ++ "L")) := by
  apply spellsPrimary_number
  · cases hDigits : Text.ofNat n with
    | nil => exact absurd hDigits Nat.toDigits_ne_nil
    | cons c rest =>
        have hc := Text.all_isDigit_ofNat n
        rw [hDigits, List.all_cons, Bool.and_eq_true] at hc
        simpa using hc.1
  · rw [List.all_append, Text.all_isNameChar_ofNat,
      Text.ofString_ofList]
    decide

/- A digit does not make a longer sign of a minus sign. -/
theorem endedBy_minus
    {c : Char}
    (h : c.isDigit = true) :
    CToken.EndedBy ['-'] c := by
  have hRange := Numeral.toNat_of_isDigit h
  have hLong : ['-', c] ∉ CToken.longSigns := by
    intro hIn
    have hLast : CToken.longSigns.all (fun s =>
        s.getLast?.all fun d =>
          d.toNat < 48 || 57 < d.toNat) = true := by decide
    have hOther := List.all_eq_true.mp hLast _ hIn
    simp at hOther
    omega
  have hState : (Scanner.idle.scan ['-']).1 = .sign ['-'] := by
    decide
  unfold CToken.EndedBy
  rw [hState]
  simp [Scanner.step, Scanner.stepSign, hLong]

theorem spells_render
    (e : IntExpr) :
    Spells unaryLevel e.render e.toC := by
  cases e with
  | constant value =>
      cases value with
      | ofNat n => exact (spellsPrimary_long n).spells _
      | negSucc n =>
          apply ((spellsPrimary_long (n + 1)).spells _).unary
            .minus
          intro c hc
          apply endedBy_minus
          have hAll := Text.all_isDigit_ofNat (n + 1)
          cases hDigits : Text.ofNat (n + 1) with
          | nil => exact absurd hDigits Nat.toDigits_ne_nil
          | cons d rest =>
              rw [hDigits, List.all_cons,
                Bool.and_eq_true] at hAll
              rw [hDigits] at hc
              cases hc
              exact hAll.1
  | ofString e =>
      exact ((e.spellsPrimary_render.spells 0).call
        Helper.int.isName_name).spells _
  | status =>
      exact (spellsPrimary_name isName_statusVariable).spells _
  | backgroundPid =>
      exact (spellsPrimary_name isName_jobVariable).spells _

/-
  The value of a constant.  It is written as its absolute
  value, behind a minus sign if it is negative, so the least
  value of `long` has no constant.
-/
def constantValue?
    (n : Int) : Option CInt :=
  if CType.long.Holds (-n) then CInt.ofInt? .long n else none

theorem constantValue?_eq
    {n : Int}
    (h : CType.long.Holds n) :
    constantValue? n =
      if n = -9223372036854775808 then none
      else some ⟨.long, n, h⟩ := by
  have hRange := h
  unfold CType.Holds at hRange
  simp only [CType.least, CType.greatest] at hRange
  have hOpposite : CType.long.Holds (-n) ↔
      n ≠ -9223372036854775808 := by
    unfold CType.Holds
    simp only [CType.least, CType.greatest]
    omega
  rw [constantValue?, CInt.ofInt?_of_holds h]
  by_cases hLeast : n = -9223372036854775808
  · rw [if_pos hLeast, if_neg (by simpa [hOpposite] using hLeast)]
  · rw [if_neg hLeast, if_pos (hOpposite.mpr hLeast)]

/- The integer that the expression denotes. -/
def value?
    (w : World) : IntExpr → Option CInt
  | .constant n => constantValue? n
  | .ofString e =>
      (e.value? w).map fun s => .ofStrtol s.text
  | .status => some (World.intOf w.status)
  | .backgroundPid => some (World.intOf w.job)

theorem int?_constant
    (w : World)
    (n : Int) :
    w.int? (IntExpr.constant n).toC = constantValue? n := by
  unfold constantValue?
  cases n with
  | ofNat n =>
      rw [toC, World.int?_number, CInt.ofConstant?_long]
      by_cases hHolds : CType.long.Holds (-(n : Int))
      · rw [Int.ofNat_eq_natCast, if_pos hHolds]
      · rw [Int.ofNat_eq_natCast, if_neg hHolds]
        apply CInt.ofInt?_eq_none
        unfold CType.Holds at hHolds ⊢
        simp only [CType.least, CType.greatest] at hHolds ⊢
        omega
  | negSucc n =>
      have hNeg : -Int.negSucc n = ((n + 1 : Nat) : Int) := by
        omega
      rw [toC, World.int?_unary, World.int?_number,
        CInt.ofConstant?_long, hNeg]
      by_cases hHolds : CType.long.Holds ((n + 1 : Nat) : Int)
      · have hBack : -((n + 1 : Nat) : Int) = Int.negSucc n := by
          omega
        rw [if_pos hHolds, CInt.ofInt?_of_holds hHolds,
          Option.bind_some, CInt.unary?,
          CInt.bring?_of_isSigned rfl, hBack]
      · rw [if_neg hHolds, CInt.ofInt?_eq_none hHolds]
        rfl

theorem int?_toC
    (w : World)
    (e : IntExpr) :
    w.int? e.toC = e.value? w := by
  cases e with
  | constant n => exact int?_constant w n
  | ofString e =>
      rw [toC, World.int?,
        w.eval_call _ _ Helper.int.ofName?_name,
        e.string?_toC w, value?]
      cases e.value? w <;> rfl
  | status =>
      rw [toC, World.int?, World.eval, World.word?, if_pos rfl]
      rfl
  | backgroundPid =>
      have hOther : jobVariable ≠ statusVariable := by
        rw [jobVariable, statusVariable, Text.ofString_ofList,
          Text.ofString_ofList]
        decide
      rw [toC, World.int?, World.eval, World.word?,
        if_neg hOther, if_pos rfl]
      rfl

end IntExpr

------------------------------------------------------------
-- Truth Values
------------------------------------------------------------

namespace World

/- Whether the text denotes an integer other than zero. -/
def truth?
    (w : World)
    (text : Text) : Option Bool :=
  (w.intValue? text).map (·.value != 0)

end World

namespace BoolExpr

/- The C expression that the text is read as. -/
def toC : BoolExpr → CExpr
  | .constant value => .number (if value then ['1'] else ['0'])
  | .nonempty name =>
      .binary (.compare .ne)
        (.index (StringExpr.variable name).toC (.number ['0']))
        (.literal '\x27' ['\x5c', '0'])
  | .testPath test path => .call test.helper.name path.toC
  | .compareStrings rel left right =>
      .binary (.compare rel)
        (.callTwo "strcmp" left.toC right.toC) (.number ['0'])
  | .compareInts rel left right =>
      .binary (.compare rel) left.toC right.toC
  | .not e => .unary .not e.toC

/- No expression starts with an equals sign. -/
theorem head?_render
    (e : BoolExpr) :
    e.render.head? ≠ some '=' := by
  cases e with
  | constant value =>
      cases value <;> simp [render, Text.ofString_eq]
  | nonempty name => simp [render, Text.ofString_eq]
  | testPath test path =>
      cases test <;>
        simp [render, callText, PathTest.helper, Helper.name,
          Text.ofString_eq]
  | compareStrings rel left right =>
      simp [render, Text.ofString_eq]
  | compareInts rel left right =>
      simp [render, Text.ofString_eq]
  | not e => simp [render, Text.ofString_eq]

/- Only an equals sign makes a longer sign of an exclamation mark. -/
theorem endedBy_not
    {c : Char}
    (h : c ≠ '=') :
    CToken.EndedBy ['!'] c := by
  have hLong : ['!', c] ∉ CToken.longSigns := by
    intro hIn
    have hLast : ∀ s ∈ CToken.longSigns, s.head? = some '!' →
        s = ['!', '='] := by decide
    have hSame := hLast _ hIn rfl
    rw [List.cons.injEq, List.cons.injEq] at hSame
    exact h hSame.2.1
  have hState : (Scanner.idle.scan ['!']).1 = .sign ['!'] := by
    decide
  unfold CToken.EndedBy
  rw [hState]
  simp [Scanner.step, Scanner.stepSign, hLong]

theorem spells_zero
    (level : Nat) :
    Spells level ['0'] (.number ['0']) :=
  (spellsPrimary_number (by decide) (by decide)).spells level

theorem spells_render
    (e : BoolExpr) :
    Spells unaryLevel e.render e.toC := by
  induction e with
  | constant value =>
      have hNumber : SpellsPrimary
          (if value then ['1'] else ['0'])
          (.number (if value then ['1'] else ['0'])) := by
        apply spellsPrimary_number <;> cases value <;> decide
      have hText : (constant value).render =
          if value then ['1'] else ['0'] := by
        cases value <;> exact Text.ofString_ofList _
      rw [hText]
      exact hNumber.spells _
  | nonempty name =>
      have hElement :=
        (StringExpr.variable name).spellsPrimary_render.index
          (spells_zero 0)
      have hReads : CToken.Reads ['\x27', '\x5c', '0', '\x27']
          [.literal '\x27' ['\x5c', '0']] :=
        CToken.reads_fixed (by decide)
      have hZero : SpellsPrimary ['\x27', '\x5c', '0', '\x27']
          (.literal '\x27' ['\x5c', '0']) :=
        ⟨_, hReads, fun _ => rfl⟩
      have hAll := ((Spells.binary (.compare .ne)
        (hElement.spells _) (hZero.spells _)).mono
          (Nat.zero_le _)).paren
      simpa [render, toC, CBinary.symbol, Relation.symbol,
        Text.ofString_eq] using hAll.spells unaryLevel
  | testPath test path =>
      exact ((path.spellsPrimary_render.spells 0).call
        test.helper.isName_name).spells _
  | compareStrings rel left right =>
      have hName : Text.isName (Text.ofString "strcmp") =
          true := by
        rw [Text.ofString_ofList]
        decide
      have hCall := (left.spellsPrimary_render.spells 0).callTwo
        (right.spellsPrimary_render.spells 0) hName
      have hAll := ((Spells.binary (.compare rel)
        (hCall.spells _) (spells_zero _)).mono
          (Nat.zero_le _)).paren
      simpa [render, toC, CBinary.symbol,
        Text.ofString_eq] using hAll.spells unaryLevel
  | compareInts rel left right =>
      have hLevel := level_lt_unaryLevel (.compare rel)
      have hAll := ((Spells.binary (.compare rel)
        (left.spells_render.mono (Nat.le_of_lt hLevel))
        (right.spells_render.mono hLevel)).mono
          (Nat.zero_le _)).paren
      simpa [render, toC, CBinary.symbol,
        Text.ofString_eq] using hAll.spells unaryLevel
  | not e ih =>
      have hText : e.not.render = CUnary.not.symbol ++ e.render := by
        simp [render, CUnary.symbol, Text.ofString_eq]
      rw [hText]
      apply ih.unary .not
      intro c hc
      apply endedBy_not
      rintro rfl
      exact e.head?_render hc

/- Whether the expression is true. -/
def value?
    (w : World) : BoolExpr → Option Bool
  | .constant value => some value
  | .nonempty name =>
      ((StringExpr.variable name).value? w).map
        fun s => !s.text.isEmpty
  | .testPath test path => (path.value? w).map (w.finds test)
  | .compareStrings rel left right =>
      (left.value? w).bind fun a =>
        (right.value? w).map fun b =>
          rel.test (w.strcmp a b).toInt 0
  | .compareInts rel left right =>
      (left.value? w).bind fun a =>
        (right.value? w).bind fun b =>
          (CInt.compare? rel a b).map (·.value != 0)
  | .not e => (value? w e).map (!·)

/- Only the empty string starts with zero. -/
theorem byteAt_zero
    (s : CString) :
    (s.byteAt 0 != 0) = !s.text.isEmpty := by
  unfold CString.byteAt
  cases hText : s.text with
  | nil => rfl
  | cons c rest =>
      have hByte := s.areBytes c (by simp [hText])
      have hOther : (if c.toNat < 128 then (c.toNat : Int) else
          (c.toNat : Int) - 256) ≠ 0 := by
        split <;> omega
      simpa using hOther

/- The character constant that stands for zero. -/
theorem int?_zeroChar
    (w : World) :
    w.int? (.literal '\x27' ['\x5c', '0']) =
      some ⟨.int, 0, by decide⟩ := by
  have hRun : Literal.octalRun ['0'] = ['0'] := by decide
  have hDecode : Literal.decode? ['\x5c', '0'] =
      some ['\x00'] := by
    rw [Literal.decode?, if_pos rfl, hRun, if_neg (by decide)]
    simp [Literal.decode?, Literal.octalValue]
  rw [World.int?, World.eval, CValue.ofLiteral?, hDecode]
  rfl

theorem int?_zero
    (w : World) :
    w.int? (.number ['0']) = some ⟨.int, 0, by decide⟩ := by
  rw [World.int?_number]
  decide

theorem int?_nonempty
    (w : World)
    (name : Text) :
    (w.int? (nonempty name).toC).map (·.value != 0) =
      (nonempty name).value? w := by
  rw [toC, World.int?_binary, World.int?_index,
    StringExpr.string?_toC, int?_zero, int?_zeroChar, value?]
  cases (StringExpr.variable name).value? w with
  | none => rfl
  | some s =>
      have hByte := byteAt_zero s
      simp [CInt.binary?, CInt.compare?_of_type_eq,
        Relation.test, CInt.value_ofBool, hByte]

theorem int?_toC
    (w : World)
    (e : BoolExpr) :
    (w.int? e.toC).map (·.value != 0) = e.value? w := by
  induction e with
  | constant value => cases value <;> rfl
  | nonempty name => exact int?_nonempty w name
  | testPath test path =>
      rw [toC, World.int?,
        w.eval_call _ _ test.helper.ofName?_name,
        path.string?_toC w, value?]
      cases path.value? w with
      | none => rfl
      | some s =>
          cases test <;>
            simp [PathTest.helper, World.help?, CValue.int?,
              CInt.value_ofBool]
  | compareStrings rel left right =>
      rw [toC, World.int?_binary, World.int?_strcmp,
        left.string?_toC w, right.string?_toC w, int?_zero,
        value?]
      cases left.value? w with
      | none => rfl
      | some a =>
          cases right.value? w with
          | none => rfl
          | some b =>
              simp [CInt.binary?, World.intOf,
                CInt.compare?_of_type_eq, CInt.value_ofBool]
  | compareInts rel left right =>
      rw [toC, World.int?_binary, left.int?_toC w,
        right.int?_toC w, value?]
      cases left.value? w with
      | none => rfl
      | some a => cases right.value? w <;> rfl
  | not e ih =>
      rw [toC, World.int?_unary, value?, ← ih]
      cases w.int? e.toC with
      | none => rfl
      | some n =>
          simp only [Option.bind_some, Option.map_some,
            CInt.unary?, CInt.value_ofBool]
          rw [bne, Bool.not_not]

/- The text of an expression is true exactly if the expression is. -/
theorem truth?_render
    (w : World)
    (e : BoolExpr) :
    w.truth? e.render = e.value? w := by
  rw [World.truth?, World.intValue?,
    e.spells_render.ofText?_eq, Option.bind_some]
  exact e.int?_toC w

end BoolExpr

------------------------------------------------------------
-- Translations
------------------------------------------------------------

/- What is computed to be a translation is one. -/
theorem eq_ok_of_toOption
    {α : Type}
    {result : Except Fault α}
    {a : α}
    (h : result.toOption = some a) :
    result = .ok a := by
  cases result with
  | error fault => contradiction
  | ok b =>
      cases h
      rfl

end ShellToC
