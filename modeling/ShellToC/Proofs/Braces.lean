import ShellToC.Proofs.Spelling

/-
  This file counts the braces of a line.

  Braces in literals and comments do not count.  A line
  closes at most one brace, at its start, and opens at most
  one, at its end.  A list in braces is closed in the line
  that opens it.  Only the mark of a fault opens a comment.

  Key definitions include:
    * `Lexeme.StaysAbove`
    * `Line.closes`
    * `Line.opens`
    * `Text.opensComment`

  Main declarations:
    * `Line.unclosed_lexemes`
    * `Line.head?_render_eq_brace_iff`
    * `Line.opensComment_of_isCode`
-/

namespace ShellToC

open Lexeme

------------------------------------------------------------
-- Running Counts
------------------------------------------------------------

namespace Lexeme

/- Counted on from `n`, there are never less than no open braces. -/
def StaysAbove
    (n : Int)
    (ls : List Lexeme) : Prop :=
  ∀ part, part <+: ls → 0 ≤ n + unclosed part

theorem staysAbove_nil
    {n : Int} :
    StaysAbove n [] ↔ 0 ≤ n := by
  constructor
  · intro h
    simpa using h [] (List.prefix_refl [])
  · intro h part hPart
    rw [List.prefix_nil.mp hPart]
    simpa using h

theorem staysAbove_cons
    {n : Int}
    {l : Lexeme}
    {ls : List Lexeme} :
    StaysAbove n (l :: ls) ↔
      0 ≤ n ∧ StaysAbove (n + l.brace) ls := by
  constructor
  · intro h
    refine ⟨by simpa using h [] List.nil_prefix, ?_⟩
    intro part hPart
    have hCons := h (l :: part)
      (List.cons_prefix_cons.mpr ⟨rfl, hPart⟩)
    rw [unclosed_cons] at hCons
    omega
  · rintro ⟨hn, hRest⟩ part hPart
    rcases List.prefix_cons_iff.mp hPart with
      rfl | ⟨rest, rfl, hPrefix⟩
    · simpa using hn
    · have hPart := hRest rest hPrefix
      rw [unclosed_cons]
      omega

instance decidableStaysAbove :
    (n : Int) → (ls : List Lexeme) →
      Decidable (StaysAbove n ls)
  | n, [] => decidable_of_iff (0 ≤ n) staysAbove_nil.symm
  | n, l :: ls =>
      have := decidableStaysAbove (n + l.brace) ls
      decidable_of_iff
        (0 ≤ n ∧ StaysAbove (n + l.brace) ls)
        staysAbove_cons.symm

theorem staysAbove_append
    {n : Int}
    {a b : List Lexeme}
    (ha : StaysAbove n a)
    (hb : StaysAbove (n + unclosed a) b) :
    StaysAbove n (a ++ b) := by
  intro part hPart
  rcases List.prefix_or_prefix_of_prefix hPart
      (List.prefix_append a b) with h | ⟨rest, rfl⟩
  · exact ha part h
  · have hRest := hb rest
      ((List.prefix_append_right_inj a).mp hPart)
    rw [unclosed_append]
    omega

/- Lexemes without braces. -/
def IsFlat
    (ls : List Lexeme) : Prop :=
  ∀ l ∈ ls, l.brace = 0

instance
    (ls : List Lexeme) :
    Decidable (IsFlat ls) := by
  unfold IsFlat
  infer_instance

@[simp] theorem isFlat_nil : IsFlat [] := by
  simp [IsFlat]

@[simp] theorem isFlat_append
    {a b : List Lexeme} :
    IsFlat (a ++ b) ↔ IsFlat a ∧ IsFlat b := by
  simp only [IsFlat, List.mem_append]
  constructor
  · intro h
    exact ⟨fun l hl => h l (Or.inl hl),
      fun l hl => h l (Or.inr hl)⟩
  · rintro ⟨ha, hb⟩ l (hl | hl)
    · exact ha l hl
    · exact hb l hl

@[simp] theorem isFlat_cons
    {l : Lexeme}
    {ls : List Lexeme} :
    IsFlat (l :: ls) ↔ l.brace = 0 ∧ IsFlat ls := by
  simp [IsFlat]

theorem IsFlat.unclosed_eq
    {ls : List Lexeme}
    (h : IsFlat ls) :
    unclosed ls = 0 := by
  induction ls with
  | nil => rfl
  | cons l ls ih =>
      rw [isFlat_cons] at h
      rw [unclosed_cons, h.1, ih h.2]
      rfl

theorem IsFlat.staysAbove
    {ls : List Lexeme}
    (h : IsFlat ls)
    {n : Int}
    (hn : 0 ≤ n) :
    StaysAbove n ls := by
  intro part hPart
  have hFlat : IsFlat part :=
    fun l hl => h l (hPart.subset hl)
  rw [hFlat.unclosed_eq]
  simpa using hn

/- Parts without braces make up a list without braces. -/
theorem isFlat_listed
    {parts : List (List Lexeme)}
    (h : ∀ part ∈ parts, IsFlat part) :
    IsFlat (listed parts) := by
  induction parts with
  | nil => exact isFlat_nil
  | cons part parts ih =>
      have hFirst := h part (by simp)
      have hRest := ih (fun p hp =>
        h p (List.mem_cons_of_mem _ hp))
      cases parts with
      | nil => simpa [listed, List.intercalate] using hFirst
      | cons next parts =>
          have hComma : (Lexeme.sign ',').brace = 0 := by
            decide
          simp only [listed, List.intercalate] at hRest
          simp [listed, List.intercalate, hFirst, hComma, hRest]

end Lexeme

------------------------------------------------------------
-- Expressions
------------------------------------------------------------

/- A call without braces in its arguments has none at all. -/
theorem isFlat_call
    {function : Text}
    {arguments : List Lexeme}
    (h : IsFlat arguments) :
    IsFlat (call function arguments) := by
  simp [call, brace, h]

theorem StringExpr.isFlat_lexemes
    (e : StringExpr) :
    IsFlat e.lexemes := by
  cases e <;> simp [lexemes, call, quoted, brace]

theorem IntExpr.isFlat_lexemes
    (e : IntExpr) :
    IsFlat e.lexemes := by
  cases e with
  | constant value =>
      cases value <;> simp [lexemes, brace]
  | ofString e => exact isFlat_call e.isFlat_lexemes
  | status => simp [lexemes, brace]
  | backgroundPid => simp [lexemes, brace]

theorem BoolExpr.isFlat_lexemes
    (e : BoolExpr) :
    IsFlat e.lexemes := by
  induction e with
  | constant value => simp [lexemes, brace]
  | nonempty name =>
      have hTest :
          IsFlat (ofText "[0] != \x27\x5c0\x27)") := by
        decide +kernel
      simp [lexemes, brace, hTest, StringExpr.isFlat_lexemes]
  | testPath test path => exact isFlat_call path.isFlat_lexemes
  | compareStrings rel left right =>
      have hZero :
          IsFlat (ofText (" " ++ (rel.symbol ++ " 0)"))) := by
        cases rel <;> decide +kernel
      have hArgs : IsFlat
          (left.lexemes ++ .sign ',' :: right.lexemes) := by
        simp [brace, StringExpr.isFlat_lexemes]
      have hCall := @isFlat_call "strcmp" _ hArgs
      simp [lexemes, brace, hCall, hZero]
  | compareInts rel left right =>
      have hSymbol :
          IsFlat (ofText (" " ++ (rel.symbol ++ " "))) := by
        cases rel <;> decide +kernel
      simp [lexemes, brace, hSymbol, IntExpr.isFlat_lexemes]
  | not e ih => simp [lexemes, brace, ih]

theorem ArithExpr.isFlat_lexemes
    (e : ArithExpr) :
    IsFlat e.lexemes := by
  have hTokens : IsFlat (e.tokens.flatMap Token.lexemes) := by
    intro l hl
    rcases List.mem_flatMap.mp hl with ⟨token, _, hl⟩
    have hToken : IsFlat token.lexemes := by
      cases token with
      | var name =>
          exact (IntExpr.ofString
            (.variable name)).isFlat_lexemes
      | operator op =>
          cases op <;>
            simp [Token.lexemes, Operator.symbol, brace]
      | _ => simp [Token.lexemes, brace]
    exact hToken l hl
  simp [lexemes, brace, hTokens]

theorem FormatCall.isFlat_lexemes
    (function : Text)
    (call : FormatCall) :
    IsFlat (call.lexemes function) := by
  refine isFlat_call (isFlat_listed ?_)
  intro part hPart
  rcases List.mem_cons.mp hPart with rfl | hPart
  · simp [quoted, brace]
  · rcases List.mem_map.mp hPart with ⟨arg, _, rfl⟩
    cases arg with
    | string e => exact e.isFlat_lexemes
    | _ => simp [FormatArg.lexemes, brace]

------------------------------------------------------------
-- Lines
------------------------------------------------------------

namespace Line

/- Whether the line only marks a fault. -/
def isMarker : Line → Bool
  | .marker _ _ _ => true
  | _ => false

/- The number of braces that the line closes at its start. -/
def closes : Line → Nat
  | .close => 1
  | .openElse => 1
  | _ => 0

/- The number of braces that the line opens at its end. -/
def opens : Line → Nat
  | .openScope => 1
  | .openOnSuccess => 1
  | .openOnFailure => 1
  | .openForever => 1
  | .openNever => 1
  | .openItems _ _ => 1
  | .openOnWorkingDir => 1
  | .openElse => 1
  | _ => 0

/- A list in braces closes what it opens. -/
theorem unclosed_listLexemes
    {values : List (List Lexeme)}
    (h : ∀ value ∈ values, IsFlat value) :
    unclosed (listLexemes values) = 0 ∧
      StaysAbove 0 (listLexemes values) := by
  have hFlat := isFlat_listed h
  constructor
  · simp [listLexemes, hFlat.unclosed_eq, brace]
  · rw [listLexemes, List.cons_append, staysAbove_cons]
    refine ⟨by decide, staysAbove_append
      (hFlat.staysAbove (by decide)) ?_⟩
    rw [hFlat.unclosed_eq]
    decide

/- Lines that hold a list in braces. -/
def holdsList : Line → Bool
  | .declareStages _ => true
  | .declareItems _ _ => true
  | .declareBuiltItems _ _ => true
  | _ => false

/- There are no braces in the parts that do not vary. -/
theorem isFlat_fixed
    {part : Text}
    (h : part ∈ fixedParts) :
    IsFlat (ofText part) := by
  have hAll :
      ∀ part ∈ fixedParts, IsFlat (ofText part) := by
    decide +kernel
  exact hAll part h

/- There are no braces in a line that needs none. -/
theorem isFlat_lexemes
    {line : Line}
    (hLegible : line.IsLegible)
    (hCloses : line.closes = 0)
    (hOpens : line.opens = 0)
    (hList : line.holdsList = false) :
    IsFlat line.lexemes := by
  cases line with
  | marker file line message => exact isFlat_nil
  | verbatim text => exact hLegible.elim
  | setStatus e =>
      simp [lexemes, statusLexemes, brace, isFlat_fixed,
        fixedParts, e.isFlat_lexemes]
  | run command =>
      simp [lexemes, statusLexemes, brace, call,
        command.isFlat_lexemes]
  | changeDir dir =>
      simp [lexemes, statusLexemes, brace, call,
        isFlat_fixed, fixedParts, dir.isFlat_lexemes]
  | startJob command =>
      simp [lexemes, brace, call, command.isFlat_lexemes]
  | exit code =>
      simp [lexemes, isFlat_fixed, fixedParts,
        code.isFlat_lexemes]
  | assign name value =>
      simp [lexemes, assignLexemes, brace, call, quoted,
        isFlat_fixed, fixedParts, value.isFlat_lexemes]
  | assignItem name loop =>
      simp [lexemes, assignLexemes, brace, call, quoted,
        isFlat_fixed, fixedParts]
  | assignInt name value =>
      simp [lexemes, brace, call, quoted, value.isFlat_lexemes]
  | printLine text => simp [lexemes, brace, call, quoted]
  | printText text =>
      simp [lexemes, brace, call, quoted, isFlat_fixed,
        fixedParts]
  | printFormat call =>
      simp [lexemes, brace, call.isFlat_lexemes]
  | printInt value =>
      simp [lexemes, brace, call, quoted, isFlat_fixed,
        fixedParts, value.isFlat_lexemes]
  | declareBuilt temp call =>
      simp [lexemes, brace, isFlat_fixed, fixedParts,
        call.isFlat_lexemes]
  | declareOutput command =>
      simp [lexemes, brace, call, isFlat_fixed, fixedParts,
        command.isFlat_lexemes]
  | declareStatuses count =>
      simp [lexemes, brace, isFlat_fixed, fixedParts]
  | declareResult count =>
      simp [lexemes, brace, call, isFlat_fixed, fixedParts]
  | free temp => simp [lexemes, brace, call]
  | freeItem loop index => simp [lexemes, brace, call]
  | declareStages commands => simp [holdsList] at hList
  | declareItems loop items => simp [holdsList] at hList
  | declareBuiltItems loop items => simp [holdsList] at hList
  | succeed => decide +kernel
  | failed => decide +kernel
  | invertStatus => decide +kernel
  | setJobStatus => decide +kernel
  | setPipelineStatus => decide +kernel
  | leaveLoop => decide +kernel
  | printWorkingDir => decide +kernel
  | declareWorkingDir => decide +kernel
  | close => simp [closes] at hCloses
  | openElse => simp [closes] at hCloses
  | _ => simp [opens] at hOpens

/- A list between two parts without braces closes what it opens. -/
theorem unclosed_around_listLexemes
    (a c : List Lexeme)
    {values : List (List Lexeme)}
    (ha : IsFlat a)
    (hValues : ∀ value ∈ values, IsFlat value)
    (hc : IsFlat c) :
    unclosed (a ++ listLexemes values ++ c) = 0 ∧
      StaysAbove 0 (a ++ listLexemes values ++ c) := by
  have hMiddle := unclosed_listLexemes hValues
  have hHead : unclosed (a ++ listLexemes values) = 0 := by
    rw [unclosed_append, ha.unclosed_eq, hMiddle.1]
    rfl
  constructor
  · rw [unclosed_append, hHead, hc.unclosed_eq]
    rfl
  · refine staysAbove_append (staysAbove_append
      (ha.staysAbove (by decide)) ?_) ?_
    · rw [ha.unclosed_eq]
      exact hMiddle.2
    · rw [hHead]
      exact hc.staysAbove (by decide)

/- A line that holds a list closes what it opens. -/
theorem unclosed_lexemes_of_holdsList
    {line : Line}
    (hList : line.holdsList = true) :
    unclosed line.lexemes = 0 ∧
      StaysAbove 0 line.lexemes := by
  cases line with
  | declareStages commands =>
      have hValues : ∀ value ∈
          commands.map StringExpr.lexemes, IsFlat value := by
        intro value hValue
        rcases List.mem_map.mp hValue with ⟨e, _, rfl⟩
        exact e.isFlat_lexemes
      have hAll := unclosed_around_listLexemes
        (ofText "const char *sh_cmds[" ++
          .word (Text.ofNat commands.length) ::
          ofText "] = ") [.sign ';']
        (by simp [isFlat_fixed, fixedParts, brace]) hValues
        (by decide)
      simpa [lexemes] using hAll
  | declareItems loop items =>
      have hValues : ∀ value ∈
          items.map (fun text => [quoted text]),
          IsFlat value := by
        intro value hValue
        rcases List.mem_map.mp hValue with ⟨text, _, rfl⟩
        simp [quoted, brace]
      have hAll := unclosed_around_listLexemes
        (ofText "static const char *const " ++
          .word (itemsName loop) :: ofText "[] = ")
        [.sign ';'] (by simp [isFlat_fixed, fixedParts, brace])
        hValues (by decide)
      simpa [lexemes] using hAll
  | declareBuiltItems loop items =>
      have hValues : ∀ value ∈
          items.map (FormatCall.lexemes Helper.format.name),
          IsFlat value := by
        intro value hValue
        rcases List.mem_map.mp hValue with ⟨call, _, rfl⟩
        exact call.isFlat_lexemes _
      have hAll := unclosed_around_listLexemes
        (ofText "char *" ++ .word (itemsName loop) ::
          ofText "[] = ")
        [.sign ';'] (by simp [isFlat_fixed, fixedParts, brace])
        hValues (by decide)
      simpa [lexemes] using hAll
  | _ => simp [holdsList] at hList

/-
  The braces of a line: those that it closes come first, and
  those that it opens come last.
-/
theorem unclosed_lexemes
    {line : Line}
    (h : line.IsLegible) :
    unclosed line.lexemes =
        (line.opens : Int) - line.closes ∧
      StaysAbove line.closes line.lexemes := by
  cases line with
  | openItems loop count =>
      have hFlat : IsFlat
          (ofText "for (size_t " ++ .word (indexName loop) ::
            ofText " = 0; " ++ .word (indexName loop) ::
            .sign '<' :: .word (Text.ofNat count) ::
            .sign ';' :: [.word (indexName loop)]) := by
        simp [isFlat_fixed, fixedParts, brace]
      have hOpen : unclosed (ofText "++) \x7b") = 1 ∧
          StaysAbove 0 (ofText "++) \x7b") := by
        decide +kernel
      have hSplit : lexemes (.openItems loop count) =
          (ofText "for (size_t " ++ .word (indexName loop) ::
            ofText " = 0; " ++ .word (indexName loop) ::
            .sign '<' :: .word (Text.ofNat count) ::
            .sign ';' :: [.word (indexName loop)]) ++
            ofText "++) \x7b" := by
        simp [lexemes]
      rw [hSplit]
      constructor
      · rw [unclosed_append, hFlat.unclosed_eq, hOpen.1]
        rfl
      · refine staysAbove_append
          (hFlat.staysAbove (Int.natCast_nonneg _)) ?_
        rw [hFlat.unclosed_eq]
        exact hOpen.2
  | openScope => decide +kernel
  | openOnSuccess => decide +kernel
  | openOnFailure => decide +kernel
  | openForever => decide +kernel
  | openNever => decide +kernel
  | openOnWorkingDir => decide +kernel
  | openElse => decide +kernel
  | close => decide +kernel
  | declareStages commands =>
      exact unclosed_lexemes_of_holdsList rfl
  | declareItems loop items =>
      exact unclosed_lexemes_of_holdsList rfl
  | declareBuiltItems loop items =>
      exact unclosed_lexemes_of_holdsList rfl
  | _ =>
      have hFlat := isFlat_lexemes h rfl rfl rfl
      exact ⟨hFlat.unclosed_eq,
        hFlat.staysAbove (Int.natCast_nonneg _)⟩

/- A line starts with a closing brace if and only if it closes one. -/
theorem head?_render_eq_brace_iff
    {line : Line}
    (h : line.IsLegible) :
    line.render.head? = some '\x7d' ↔ line.closes = 1 := by
  cases line with
  | verbatim text => exact h.elim
  | _ =>
      simp [render, closes, statusText, statusVariable,
        jobVariable, callText, assignText, Helper.name,
        FormatCall.renderPrint, FormatCall.render,
        Text.ofString_eq]

/- Whether the line is code: no mark, and no text as it is given. -/
def isCode : Line → Bool
  | .marker _ _ _ => false
  | .verbatim _ => false
  | _ => true

/- Code does not start with a slash. -/
theorem head?_render_of_isCode
    {line : Line}
    (h : line.isCode = true) :
    line.render.head? ≠ some '/' := by
  cases line with
  | marker file line message => cases h
  | verbatim text => cases h
  | _ =>
      simp [render, statusText, statusVariable, jobVariable,
        callText, assignText, Helper.name,
        FormatCall.renderPrint, FormatCall.render,
        Text.ofString_eq]

end Line

------------------------------------------------------------
-- Comments
------------------------------------------------------------

/- Whether the text of a line opens a comment. -/
def Text.opensComment
    (text : Text) : Bool :=
  (Text.ofString "/*").isPrefixOf text

namespace Line

/- Code opens no comment. -/
theorem opensComment_of_isCode
    {line : Line}
    (h : line.isCode = true) :
    line.render.opensComment = false := by
  have hHead := head?_render_of_isCode h
  rw [Text.opensComment, Text.ofString_eq]
  cases hText : line.render with
  | nil => rfl
  | cons c rest =>
      rw [hText, List.head?_cons, ne_eq, Option.some.injEq] at hHead
      have hSlash : ('/' == c) = false :=
        beq_eq_false_iff_ne.mpr (Ne.symm hHead)
      simp [List.isPrefixOf, hSlash]

/- A mark opens a comment. -/
theorem opensComment_marker
    (file : Text)
    (line : Nat)
    (message : Text) :
    (render (.marker file line message)).opensComment = true := by
  simp [Text.opensComment, render, Text.ofString_eq]

end Line

end ShellToC
