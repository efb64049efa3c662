import ShellToC.Proofs.Decoding
import ShellToC.Proofs.FormatCalls
import ShellToC.Proofs.HelperCalls
import ShellToC.Proofs.Nesting

/-
  This file shows that no text of a script is ever taken for
  a format.

  Wherever a program names a function that takes a format,
  it calls it.  The format is a literal, and what it denotes
  has one directive for each of the values behind it, which
  fits the value.

  Key definitions include:
    * `Filler`
    * `Lexeme.IsFilledIn`
    * `Lexeme.FillsIn`

  Main declarations:
    * `Line.fillsIn_lexemes`
    * `Draft.formats_filledIn`
-/

namespace ShellToC

open Lexeme

------------------------------------------------------------
-- Fillers
------------------------------------------------------------

/-
  A value that is filled into a format: that of a variable of
  the script, a text, one of the two integers that a program
  keeps, or that of arithmetic.
-/
inductive Filler where
  | variable (name : Text)
  | literal (text : Text)
  | status
  | backgroundPid
  | long (e : ArithExpr)
  deriving DecidableEq, Repr

namespace Filler

/- The conversion that fits the value. -/
def conversion : Filler → Conversion
  | .variable _ => .string
  | .literal _ => .string
  | .status => .int
  | .backgroundPid => .int
  | .long _ => .long

/- The lexemes of the value. -/
def lexemes : Filler → List Lexeme
  | .variable name =>
      [.word Helper.var.name, .sign '(', quoted name, .sign ')']
  | .literal text => [quoted text]
  | .status => [.word statusVariable]
  | .backgroundPid => [.word jobVariable]
  | .long e =>
      .sign '(' :: .word "long" :: .sign ')' :: e.lexemes

/- The values that sound calls fill in. -/
def ofArg? : FormatArg → Option Filler
  | .string (.variable name) => some (.variable name)
  | .string (.literal text) => some (.literal text)
  | .string (.temporary _) => none
  | .status => some .status
  | .backgroundPid => some .backgroundPid

end Filler

/- Whether the function takes a format. -/
def Callee.takesFormat : Callee → Bool
  | .print => true
  | .helper called => called = .format

namespace Lexeme

------------------------------------------------------------
-- Calls with Formats
------------------------------------------------------------

/- The functions that take a format. -/
def formatters : List Text :=
  ["printf", Helper.format.name]

/-
  The function is called with a literal, and with values that
  fit the directives of what the literal denotes, one by one.
  Only arithmetic that is printed is a long number.
-/
def IsFilledIn
    (function : Text)
    (behind : List Lexeme) : Prop :=
  ∃ inside format fillers rest,
    behind =
      .sign '(' :: .literal '\x22' inside ::
        (fillers.flatMap fun filler =>
          .sign ',' :: filler.lexemes) ++ .sign ')' :: rest ∧
    Literal.decode? inside = some format ∧
    (FormatPart.ofFormat? format).map
        (·.filterMap FormatPart.conversion?) =
      some (fillers.map Filler.conversion) ∧
    fillers ≠ [] ∧
    ∀ e, .long e ∈ fillers →
      function = "printf" ∧ format = "%ld\n"

/- Wherever a function that takes a format is named, it is filled in. -/
def FillsIn
    (ls : List Lexeme) : Prop :=
  ∀ before function behind,
    ls = before ++ .word function :: behind →
    function ∈ formatters → IsFilledIn function behind

theorem takesFormat_of_mem
    {function : Text}
    (h : function ∈ formatters) :
    (callee? (.word function)).any Callee.takesFormat = true := by
  have hAll : ∀ function ∈ formatters,
      (callee? (.word function)).any Callee.takesFormat =
        true := by
    decide +kernel
  exact hAll function h

/- What more follows a call makes no difference. -/
theorem IsFilledIn.append
    {function : Text}
    {behind : List Lexeme}
    (h : IsFilledIn function behind)
    (more : List Lexeme) :
    IsFilledIn function (behind ++ more) := by
  rcases h with ⟨inside, format, fillers, rest, rfl, h⟩
  exact ⟨inside, format, fillers, rest ++ more, by simp, h⟩

theorem fillsIn_of_avoids
    {ls : List Lexeme}
    (h : avoids Callee.takesFormat ls = true) :
    FillsIn ls := by
  rintro before function behind rfl hFunction
  simp [takesFormat_of_mem hFunction] at h

theorem FillsIn.append
    {a b : List Lexeme}
    (ha : FillsIn a)
    (hb : FillsIn b) :
    FillsIn (a ++ b) := by
  intro before function behind hSplit hFunction
  rcases List.append_eq_append_iff.mp hSplit with
    ⟨mid, rfl, hMid⟩ | ⟨mid, hMid, hBehind⟩
  · exact hb mid function behind hMid hFunction
  · cases mid with
    | nil =>
        exact hb [] function behind (by simpa using hBehind.symm)
          hFunction
    | cons l mid =>
        rw [List.cons_append, List.cons.injEq] at hBehind
        rcases hBehind with ⟨rfl, rfl⟩
        exact (ha before function mid hMid hFunction).append b

theorem fillsIn_flatMap
    {α : Type}
    {xs : List α}
    {lexemes : α → List Lexeme}
    (h : ∀ x ∈ xs, FillsIn (lexemes x)) :
    FillsIn (xs.flatMap lexemes) := by
  induction xs with
  | nil => exact fillsIn_of_avoids rfl
  | cons x xs ih =>
      rw [List.flatMap_cons]
      exact (h x List.mem_cons_self).append
        (ih fun y hy => h y (List.mem_cons_of_mem _ hy))

/- Parts with commas between them. -/
theorem listed_cons
    (first : List Lexeme)
    (parts : List (List Lexeme)) :
    listed (first :: parts) =
      first ++ parts.flatMap (.sign ',' :: ·) := by
  induction parts generalizing first with
  | nil => simp [listed]
  | cons part parts ih =>
      have hRest := ih part
      rw [listed] at hRest ⊢
      rw [List.intercalate_cons_cons, hRest]
      simp

theorem fillsIn_listed
    {α : Type}
    {xs : List α}
    {lexemes : α → List Lexeme}
    (h : ∀ x ∈ xs, FillsIn (lexemes x)) :
    FillsIn (listed (xs.map lexemes)) := by
  cases xs with
  | nil => exact fillsIn_of_avoids rfl
  | cons x xs =>
      rw [List.forall_mem_cons] at h
      have hComma : FillsIn [.sign ','] :=
        fillsIn_of_avoids rfl
      rw [List.map_cons, listed_cons, List.flatMap_map]
      exact h.1.append (fillsIn_flatMap fun y hy =>
        hComma.append (h.2 y hy))

/- A function that takes a format, and values without formats. -/
theorem IsFilledIn.fillsIn
    {function : Text}
    {behind : List Lexeme}
    (h : IsFilledIn function behind)
    (hBehind : avoids Callee.takesFormat behind = true) :
    FillsIn (.word function :: behind) := by
  intro before other after hSplit hOther
  cases before with
  | nil =>
      rw [List.nil_append, List.cons.injEq] at hSplit
      rcases hSplit with ⟨hWord, rfl⟩
      cases hWord
      exact h
  | cons l before =>
      rw [List.cons_append, List.cons.injEq] at hSplit
      exact fillsIn_of_avoids hBehind before other after
        hSplit.2 hOther

end Lexeme

------------------------------------------------------------
-- Expressions
------------------------------------------------------------

theorem StringExpr.avoids_lexemes
    (e : StringExpr) :
    avoids Callee.takesFormat e.lexemes = true := by
  cases e with
  | literal text => rfl
  | «variable» name =>
      simp [lexemes, Callee.takesFormat]
  | temporary temp => simp [lexemes]

theorem IntExpr.avoids_lexemes
    (e : IntExpr) :
    avoids Callee.takesFormat e.lexemes = true := by
  cases e with
  | constant value => cases value <;> simp [lexemes]
  | ofString e =>
      simp [lexemes, Callee.takesFormat, e.avoids_lexemes]
  | status => simp [lexemes]
  | backgroundPid => simp [lexemes]

theorem BoolExpr.avoids_lexemes
    (e : BoolExpr) :
    avoids Callee.takesFormat e.lexemes = true := by
  induction e with
  | constant value => cases value <;> decide +kernel
  | nonempty name =>
      have hTest : avoids Callee.takesFormat
          (ofText "[0] != \x27\x5c0\x27)") = true := by
        decide +kernel
      simp [lexemes, StringExpr.avoids_lexemes, hTest]
  | testPath test path =>
      have hHelper : test.helper ≠ .format := by
        cases test <;> decide
      simp [lexemes, StringExpr.avoids_lexemes,
        Callee.takesFormat, hHelper]
  | compareStrings rel left right =>
      simpa [lexemes, StringExpr.avoids_lexemes,
        callee?_library] using
          avoids_symbol Callee.takesFormat rel " 0)" (by simp)
  | compareInts rel left right =>
      simpa [lexemes, IntExpr.avoids_lexemes] using
        avoids_symbol Callee.takesFormat rel " " (by simp)
  | not e ih => simpa [lexemes] using ih

theorem ArithExpr.avoids_lexemes
    {e : ArithExpr}
    (h : e.IsLegible) :
    avoids Callee.takesFormat e.lexemes = true := by
  have hToken : ∀ token ∈ e.tokens,
      avoids Callee.takesFormat token.lexemes = true := by
    intro token hToken
    have hLegible := h token hToken
    cases token with
    | var name =>
        exact (IntExpr.ofString
          (.variable name)).avoids_lexemes
    | number numeral =>
        simp [Token.lexemes, callee?_numeral hLegible]
    | _ => simp [Token.lexemes]
  have hTokens : avoids Callee.takesFormat
      (e.tokens.flatMap Token.lexemes) = true := by
    rw [avoids, List.all_flatMap, List.all_eq_true]
    exact hToken
  simp [lexemes, hTokens]

theorem FormatArg.avoids_lexemes
    (arg : FormatArg) :
    avoids Callee.takesFormat arg.lexemes = true := by
  cases arg with
  | string e => exact e.avoids_lexemes
  | _ => simp [lexemes]

------------------------------------------------------------
-- Calls
------------------------------------------------------------

/-
  The value that is filled in has the lexemes and the
  conversion of the argument.
-/
theorem Filler.lexemes_of_ofArg?
    {arg : FormatArg}
    {filler : Filler}
    (h : ofArg? arg = some filler) :
    filler.lexemes = arg.lexemes ∧
      filler.conversion = arg.conversion ∧
      ∀ e, filler ≠ .long e := by
  cases arg with
  | string e =>
      cases e <;> cases h <;>
        exact ⟨rfl, rfl, fun _ hLong => by cases hLong⟩
  | status | backgroundPid =>
      cases h
      exact ⟨rfl, rfl, fun _ hLong => by cases hLong⟩

namespace FormatCall

/- The values that a sound call fills in. -/
theorem IsSound.exists_fillers
    {call : FormatCall}
    (h : call.IsSound) :
    ∃ fillers : List Filler,
      fillers.map Filler.lexemes =
        call.args.map FormatArg.lexemes ∧
      fillers.map Filler.conversion =
        call.args.map FormatArg.conversion ∧
      ∀ e, .long e ∉ fillers := by
  have hArgs := h.args_ne_temporary
  generalize call.args = args at hArgs
  induction args with
  | nil => exact ⟨[], rfl, rfl, by simp⟩
  | cons arg args ih =>
      simp only [List.mem_cons, not_or] at hArgs
      rcases ih fun temp => (hArgs temp).2 with
        ⟨fillers, hLexemes, hConversions, hLong⟩
      have hFirst : ∃ filler, Filler.ofArg? arg = some filler := by
        cases arg with
        | string e =>
            cases e with
            | temporary temp => exact absurd rfl (hArgs temp).1
            | _ => exact ⟨_, rfl⟩
        | _ => exact ⟨_, rfl⟩
      rcases hFirst with ⟨filler, hFirst⟩
      have hFiller := Filler.lexemes_of_ofArg? hFirst
      refine ⟨filler :: fillers, ?_, ?_, ?_⟩
      · simp [hFiller, hLexemes]
      · simp [hFiller, hConversions]
      · simpa [hLong] using fun e => Ne.symm (hFiller.2.2 e)

/- A sound call is filled in. -/
theorem IsSound.fillsIn
    {call : FormatCall}
    (h : call.IsSound)
    (function : Text) :
    FillsIn (call.lexemes function) := by
  rcases h.exists_fillers with
    ⟨fillers, hLexemes, hConversions, hLong⟩
  have hListed : listed ([quoted call.format] ::
      call.args.map FormatArg.lexemes) =
        quoted call.format :: fillers.flatMap fun filler =>
          .sign ',' :: filler.lexemes := by
    rw [listed_cons, ← hLexemes, List.flatMap_map]
    rfl
  have hValues : avoids Callee.takesFormat
      (listed ([quoted call.format] ::
        call.args.map FormatArg.lexemes)) = true := by
    refine avoids_listed _ (List.forall_mem_cons.mpr
      ⟨rfl, List.forall_mem_map.mpr fun arg _ => ?_⟩)
    exact arg.avoids_lexemes
  refine IsFilledIn.fillsIn ?_ (by simp [hValues])
  refine ⟨Literal.escapeFrom false call.format, call.format,
    fillers, [], ?_, Literal.decode?_escapeFrom _ _, ?_, ?_, ?_⟩
  · rw [hListed]
    simp [quoted]
  · rw [hConversions]
    exact h.conversions_eq
  · rintro rfl
    simp only [List.map_nil, eq_comm, List.map_eq_nil_iff] at hLexemes
    exact h.args_ne_nil hLexemes
  · exact fun e hMem => absurd hMem (hLong e)

end FormatCall

------------------------------------------------------------
-- Lines
------------------------------------------------------------

namespace Line

/- Arithmetic is printed as a long number. -/
theorem fillsIn_printInt
    {value : ArithExpr}
    (h : value.IsLegible) :
    FillsIn (lexemes (.printInt value)) := by
  have hCast : ofText ", (long)" =
      [.sign ',', .sign '(', .word "long", .sign ')'] := by
    decide +kernel
  have hWord : callee? (.word "long") = none := by
    decide +kernel
  refine IsFilledIn.fillsIn ?_ (by simp [hCast, hWord,
    ArithExpr.avoids_lexemes h])
  refine ⟨Literal.escapeFrom false "%ld\n", "%ld\n",
    [.long value], [.sign ';'], ?_,
    Literal.decode?_escapeFrom _ _, ?_, by simp, by simp⟩
  · rw [hCast]
    simp [quoted, Filler.lexemes]
  · rw [Text.ofString_ofList]
    rfl

/- The formats of a sound line are filled in. -/
theorem fillsIn_lexemes
    {line : Line}
    (hLegible : line.IsLegible)
    (hSound : line.IsSound) :
    FillsIn line.lexemes := by
  cases line with
  | marker file line message => exact fillsIn_of_avoids rfl
  | verbatim text => exact hLegible.elim
  | printInt value => exact fillsIn_printInt hLegible
  | printFormat call =>
      exact ((hSound call (by simp [formatCalls])).fillsIn
        "printf").append (fillsIn_of_avoids rfl)
  | declareBuilt temp call =>
      have hCall := (hSound call (by simp [formatCalls])).fillsIn
        Helper.format.name
      have hStart : avoids Callee.takesFormat
          (ofText "char *" ++ [.word temp.name, .sign '=']) =
            true := by
        simp [avoids_fixed, fixedParts]
      have hEnd : FillsIn [.sign ';'] := fillsIn_of_avoids rfl
      have hAll := ((fillsIn_of_avoids hStart).append
        hCall).append hEnd
      simpa [lexemes] using hAll
  | declareBuiltItems loop items =>
      have hStart : avoids Callee.takesFormat
          (ofText "char *" ++
            .word (itemsName loop) :: ofText "[] = " ++
            [.sign '\x7b']) = true := by
        simp [avoids_fixed, fixedParts]
      have hItems := fillsIn_listed fun call hCall =>
        (hSound call hCall).fillsIn Helper.format.name
      have hEnd : FillsIn [.sign '\x7d', .sign ';'] :=
        fillsIn_of_avoids rfl
      have hAll := ((fillsIn_of_avoids hStart).append
        hItems).append hEnd
      simpa [lexemes, listLexemes, formatCalls] using hAll
  | openItems loop count =>
      exact fillsIn_of_avoids (by simp [lexemes,
        avoids_increment, avoids_fixed, fixedParts])
  | setStatus e =>
      exact fillsIn_of_avoids (by simp [lexemes,
        statusLexemes, e.avoids_lexemes,
        avoids_fixed, fixedParts])
  | run command =>
      exact fillsIn_of_avoids (by simp [lexemes,
        statusLexemes, command.avoids_lexemes,
        Callee.takesFormat])
  | changeDir dir =>
      exact fillsIn_of_avoids (by simp [lexemes,
        statusLexemes, dir.avoids_lexemes, callee?_library,
        avoids_fixed, fixedParts])
  | startJob command =>
      exact fillsIn_of_avoids (by simp [lexemes,
        command.avoids_lexemes, Callee.takesFormat])
  | exit code =>
      exact fillsIn_of_avoids (by simp [lexemes,
        code.avoids_lexemes, avoids_fixed,
        fixedParts])
  | assign name value =>
      exact fillsIn_of_avoids (by simp [lexemes,
        assignLexemes, value.avoids_lexemes, callee?_library,
        avoids_fixed, fixedParts])
  | assignItem name loop =>
      exact fillsIn_of_avoids (by simp [lexemes,
        assignLexemes, callee?_library, avoids_fixed,
        fixedParts])
  | assignInt name value =>
      exact fillsIn_of_avoids (by simp [lexemes,
        Callee.takesFormat,
        ArithExpr.avoids_lexemes hLegible])
  | printLine text =>
      exact fillsIn_of_avoids (by
        simp [lexemes, callee?_library])
  | printText text =>
      exact fillsIn_of_avoids (by simp [lexemes,
        callee?_library, avoids_fixed, fixedParts])
  | declareOutput command =>
      exact fillsIn_of_avoids (by simp [lexemes,
        command.avoids_lexemes, Callee.takesFormat,
        avoids_fixed, fixedParts])
  | declareStages commands =>
      have hCommands := avoids_listed _
        (List.forall_mem_map.mpr
          fun (e : StringExpr) (_ : e ∈ commands) =>
            e.avoids_lexemes)
      exact fillsIn_of_avoids (by simp [lexemes,
        listLexemes, hCommands, avoids_fixed, fixedParts])
  | declareStatuses count =>
      exact fillsIn_of_avoids (by simp [lexemes,
        avoids_fixed, fixedParts])
  | declareResult count =>
      exact fillsIn_of_avoids (by simp [lexemes,
        Callee.takesFormat, avoids_fixed, fixedParts])
  | declareItems loop items =>
      have hItems := avoids_listed _
        (List.forall_mem_map.mpr
          fun (text : Text) (_ : text ∈ items) =>
            (rfl : avoids Callee.takesFormat [quoted text] = true))
      exact fillsIn_of_avoids (by simp [lexemes,
        listLexemes, hItems, avoids_fixed, fixedParts])
  | free temp =>
      exact fillsIn_of_avoids (by
        simp [lexemes, callee?_library])
  | freeItem loop index =>
      exact fillsIn_of_avoids (by
        simp [lexemes, callee?_library])
  | _ => exact fillsIn_of_avoids (by decide +kernel)

end Line

------------------------------------------------------------
-- Drafts
------------------------------------------------------------

namespace Draft

/-
  Whatever the script is, wherever the lines written for it
  name a function that takes a format, it is called with a
  literal that has exactly one fitting directive for each of
  the values behind it, and with at least one value.

  The name of the file is copied into the comments that mark
  faults.  It may not hold `*/`, for what stands behind that
  would be read as code, and could name such a function.
-/
theorem formats_filledIn
    (file unit script : Text)
    (hFile : Text.occursIn "*/" file = false)
    (hUnit : unit.isAllBlank = true)
    (before behind : List Lexeme)
    (function : Text)
    (hBody : ofText (ofScript file unit script).body =
      before ++ .word function :: behind)
    (hFunction : function ∈ formatters) :
    IsFilledIn function behind := by
  have hNested := (isNested_ofScript hFile unit script).1
  have hSound := isSound_ofScript file unit script
  have hBlank :
      (ofScript file unit script).unit.isAllBlank = true := by
    rw [unit_ofScript]
    exact hUnit
  rw [(hNested.readsWhole_body hBlank).ofText_eq] at hBody
  refine fillsIn_flatMap (fun row hRow => ?_) before function
    behind hBody hFunction
  exact Line.fillsIn_lexemes (hNested.rows.legible row hRow)
    (hSound row hRow)

/- Percent signs of the script are doubled next to its references. -/
theorem formats_filledIn_of_percent :
    let behind : List Lexeme :=
      [.sign '(', .literal '\x22' "100%%s %s%%\x5cn", .sign ',',
       .word "sh_var", .sign '(', .literal '\x22' "x", .sign ')',
       .sign ')', .sign ';', .word "last_status", .sign '=',
       .word "0", .sign ';']
    Text.occursIn "*/" "a.sh" = false ∧
    Text.isAllBlank "  " = true ∧
    ofText (ofScript "a.sh" "  " "echo 100%s $x%").body =
      [] ++ .word "printf" :: behind ∧
    Text.ofString "printf" ∈ formatters ∧
    IsFilledIn "printf" behind := by
  intro behind
  have hFile : Text.occursIn "*/" "a.sh" = false := by
    decide +kernel
  have hUnit : Text.isAllBlank "  " = true := by
    decide +kernel
  have hBody :
      ofText (ofScript "a.sh" "  " "echo 100%s $x%").body =
        [] ++ .word "printf" :: behind := by
    decide +kernel
  have hFunction : Text.ofString "printf" ∈ formatters := by
    simp [formatters]
  exact ⟨hFile, hUnit, hBody, hFunction,
    formats_filledIn "a.sh" "  " "echo 100%s $x%" hFile hUnit []
      behind "printf" hBody hFunction⟩

end Draft

end ShellToC
