import ShellToC.Code.Line
import ShellToC.Proofs.Lexeme

/-
  This file says how the lines of generated programs are
  read as C text.

  Each expression and each line has its lexemes, given part
  by part like its text.  What a script says stands in
  literals and comments only, so the lexemes of a line
  depend on its words no further than that.

  Key definitions include:
    * `StringExpr.lexemes`
    * `BoolExpr.lexemes`
    * `ArithExpr.lexemes`
    * `FormatCall.lexemes`
    * `Line.lexemes`
    * `Line.IsLegible`

  Main declarations:
    * `Line.readsWhole_render`
-/

namespace ShellToC

open Lexeme

------------------------------------------------------------
-- Fixed Text
------------------------------------------------------------

namespace Lexeme

/- Fixed text that leaves nothing open is read as its lexemes. -/
theorem readsWhole_ofText
    {text : Text}
    (h : Lexer.idle.after text = .idle) :
    ReadsWhole text (ofText text) := by
  have hRead := readsWhole_of_after h
  rw [hRead.ofText_eq]
  exact hRead

/- Fixed text is read as the lexemes that it is computed to have. -/
theorem readsWhole_fixed
    {text : Text}
    {ls : List Lexeme}
    (h : Lexer.idle.after text = .idle ∧
      Lexer.idle.emitted text = ls) :
    ReadsWhole text ls :=
  h.2 ▸ readsWhole_of_after h.1

/- Fixed text that leaves at most a word open is read as its lexemes. -/
theorem reads_ofText
    {text : Text}
    (h : (Lexer.idle.after text).isEdge = true) :
    Reads text (ofText text) := by
  intro c rest hc
  have hWhole : ofText text = Lexer.idle.emitted text ++
      (Lexer.idle.after text).flush := by
    simpa [ofText, Lexer.read] using
      Lexer.read_append Lexer.idle text []
  rw [ofText, Lexer.read_append, hWhole, List.append_assoc]
  congr 1
  cases hState : Lexer.idle.after text with
  | idle => rfl
  | word w =>
      simpa [Lexer.flush] using read_word w [] c rest rfl hc
  | _ => simp [hState, Lexer.isEdge] at h

/- What is computed from the characters of a literal. -/
section Literals

variable {cs : List Char} {ls : List Lexeme}

theorem readsWhole_literal
    (h : Lexer.idle.after cs = .idle ∧
      Lexer.idle.emitted cs = ls) :
    ReadsWhole (Text.ofString (String.ofList cs)) ls := by
  rw [Text.ofString_ofList]
  exact readsWhole_fixed h

theorem readsWhole_ofLiteral
    (h : Lexer.idle.after cs = .idle) :
    ReadsWhole (Text.ofString (String.ofList cs))
      (ofText (Text.ofString (String.ofList cs))) := by
  rw [Text.ofString_ofList]
  exact readsWhole_ofText h

theorem reads_ofLiteral
    (h : (Lexer.idle.after cs).isEdge = true) :
    Reads (Text.ofString (String.ofList cs))
      (ofText (Text.ofString (String.ofList cs))) := by
  rw [Text.ofString_ofList]
  exact reads_ofText h

theorem separates_literal
    (h : cs.head?.any separates = true) :
    (Text.ofString (String.ofList cs)).head?.any separates =
      true := by
  rw [Text.ofString_ofList]
  exact h

theorem isName_literal
    (h : Text.isName cs = true) :
    Text.isName (Text.ofString (String.ofList cs)) = true := by
  rw [Text.ofString_ofList]
  exact h

end Literals

/- The lexeme of a quoted text. -/
def quoted
    (text : Text) : Lexeme :=
  .literal '\x22' (Literal.escapeFrom false text)

/- The lexemes of a call. -/
def call
    (function : Text)
    (arguments : List Lexeme) : List Lexeme :=
  .word function :: .sign '(' :: arguments ++ [.sign ')']

/- The lexemes of parts with commas between them. -/
def listed
    (parts : List (List Lexeme)) : List Lexeme :=
  List.intercalate [.sign ','] parts

/- A name is a word. -/
theorem reads_name
    {name : Text}
    (h : Text.isName name = true) :
    Reads name [.word name] := by
  cases name with
  | nil => simp [Text.isName] at h
  | cons c rest =>
      simp only [Text.isName, Bool.and_eq_true] at h
      have hStart : Text.isNameChar c = true := by
        have hc := h.1
        simp only [Text.isNameStart, Bool.or_eq_true] at hc
        simp only [Text.isNameChar, Char.isAlphanum,
          Bool.or_eq_true]
        rcases hc with hc | hc
        · exact Or.inl (Or.inl hc)
        · exact Or.inr hc
      exact reads_word (by simp) (by simp [hStart, h.2])

/- A call is read as a call. -/
theorem readsWhole_callText
    {function arguments : Text}
    {ls : List Lexeme}
    (hName : Text.isName function = true)
    (hArgs : Reads arguments ls) :
    ReadsWhole (callText function arguments)
      (call function ls) := by
  have hOpen : ReadsWhole (Text.ofString "(") [.sign '('] :=
    readsWhole_literal (by decide)
  have hClose : ReadsWhole (Text.ofString ")") [.sign ')'] :=
    readsWhole_literal (by decide)
  have hHead := (reads_name hName).append_readsWhole hOpen
    (separates_literal rfl)
  exact (hHead.append_reads hArgs).append_readsWhole hClose
    (separates_literal rfl)

/- Parts with commas between them are read one by one. -/
theorem reads_joinWith_comma
    (parts : List (Text × List Lexeme))
    (hParts : ∀ part ∈ parts, Reads part.1 part.2) :
    Reads (Text.joinWith ", " (parts.map Prod.fst))
      (listed (parts.map Prod.snd)) := by
  induction parts with
  | nil => exact readsWhole_nil.reads
  | cons part parts ih =>
      cases parts with
      | nil =>
          simpa [Text.joinWith, listed, List.intercalate]
            using hParts part (by simp)
      | cons next parts =>
          have hFirst := hParts part (by simp)
          have hComma :
              ReadsWhole (Text.ofString ", ") [.sign ','] :=
            readsWhole_literal (by decide)
          have hRest := ih (fun p hp =>
            hParts p (List.mem_cons_of_mem _ hp))
          have hAll := hFirst.append
            (hComma.append_reads hRest)
            (by rw [Text.ofString_eq]; rfl)
          simpa [Text.joinWith, listed, List.intercalate]
            using hAll

end Lexeme

------------------------------------------------------------
-- Strings and Integers
------------------------------------------------------------

namespace Text

/- The digits of a number are name characters. -/
theorem all_isNameChar_ofNat
    (n : Nat) :
    (ofNat n).all isNameChar = true := by
  rw [List.all_eq_true]
  intro c hc
  have hDigit : c.isDigit = true :=
    Nat.isDigit_of_mem_toDigits (by decide) (by decide) hc
  simp [isNameChar, Char.isAlphanum, hDigit]

/- A name with a number behind it is a name. -/
theorem isName_append_ofNat
    {name : Text}
    (h : isName name = true)
    (n : Nat) :
    isName (name ++ ofNat n) = true := by
  cases name with
  | nil => simp [isName] at h
  | cons c rest =>
      simp only [isName, Bool.and_eq_true] at h
      simp [isName, h, all_isNameChar_ofNat n]

/- A number is a word. -/
theorem reads_ofNat
    (n : Nat) :
    Reads (ofNat n) [.word (ofNat n)] :=
  reads_word Nat.toDigits_ne_nil (all_isNameChar_ofNat n)

end Text

/- The names of temporaries are names. -/
theorem Temporary.isName_name
    (temp : Temporary) :
    Text.isName temp.name = true := by
  cases temp with
  | command => exact isName_literal rfl
  | stage index =>
      exact Text.isName_append_ofNat (isName_literal rfl) index
  | directory => exact isName_literal rfl
  | value => exact isName_literal rfl
  | output => exact isName_literal rfl

/-
  Every helper is in the list.  What holds of all helpers is
  decided over the list, where each name is decoded once.
-/
theorem Helper.mem_all
    (helper : Helper) :
    helper ∈ all := by
  cases helper <;> decide

/- The names of helpers are names. -/
theorem Helper.isName_name
    (helper : Helper) :
    Text.isName helper.name = true := by
  cases helper <;> exact isName_literal rfl

theorem isName_statusVariable :
    Text.isName statusVariable = true := by
  rw [statusVariable, Text.ofString_ofList]
  decide

theorem isName_jobVariable :
    Text.isName jobVariable = true := by
  rw [jobVariable, Text.ofString_ofList]
  decide

namespace StringExpr

/- The lexemes of the expression. -/
def lexemes : StringExpr → List Lexeme
  | .literal text => [quoted text]
  | .variable name => call Helper.var.name [quoted name]
  | .temporary temp => [.word temp.name]

theorem reads_render
    (e : StringExpr) :
    Reads e.render e.lexemes := by
  cases e with
  | literal text => exact (readsWhole_quote text).reads
  | «variable» name =>
      exact (readsWhole_callText Helper.var.isName_name
        (readsWhole_quote name).reads).reads
  | temporary temp => exact reads_name temp.isName_name

end StringExpr

namespace IntExpr

/- The lexemes of the expression. -/
def lexemes : IntExpr → List Lexeme
  | .constant (.ofNat n) => [.word (Text.ofNat n ++ "L")]
  | .constant (.negSucc n) =>
      [.sign '-', .word (Text.ofNat (n + 1) ++ "L")]
  | .ofString e => call Helper.int.name e.lexemes
  | .status => [.word statusVariable]
  | .backgroundPid => [.word jobVariable]

/- A number with the suffix of a long constant is a word. -/
theorem reads_long
    (n : Nat) :
    Reads (Text.ofNat n ++ "L")
      [.word (Text.ofNat n ++ "L")] := by
  apply reads_word
  · simp [Text.ofString_eq]
  · rw [List.all_append, Text.all_isNameChar_ofNat,
      Text.ofString_ofList]
    decide

theorem reads_render
    (e : IntExpr) :
    Reads e.render e.lexemes := by
  cases e with
  | constant value =>
      cases value with
      | ofNat n => exact reads_long n
      | negSucc n =>
          have hMinus : ReadsWhole ['-'] [.sign '-'] :=
            readsWhole_fixed (by decide)
          exact hMinus.append_reads (reads_long (n + 1))
  | ofString e =>
      exact (readsWhole_callText Helper.int.isName_name
        e.reads_render).reads
  | status => exact reads_name isName_statusVariable
  | backgroundPid => exact reads_name isName_jobVariable

end IntExpr

------------------------------------------------------------
-- Truth Values
------------------------------------------------------------

/- The symbol of a comparison ends before a blank. -/
theorem Relation.after_symbol
    (rel : Relation) :
    Lexer.idle.after (" " ++ rel.symbol ++ " ") = .idle ∧
      Lexer.idle.after (" " ++ rel.symbol ++ " 0)") = .idle := by
  cases rel <;>
  · rw [symbol]
    repeat rw [Text.ofString_ofList]
    decide

namespace BoolExpr

/- The lexemes of the expression. -/
def lexemes : BoolExpr → List Lexeme
  | .constant value => [.word (if value then "1" else "0")]
  | .nonempty name =>
      .sign '(' :: (StringExpr.variable name).lexemes ++
        ofText "[0] != \x27\x5c0\x27)"
  | .testPath test path => call test.helper.name path.lexemes
  | .compareStrings rel left right =>
      .sign '(' ::
        call "strcmp"
          (left.lexemes ++ .sign ',' :: right.lexemes) ++
        ofText (" " ++ rel.symbol ++ " 0)")
  | .compareInts rel left right =>
      .sign '(' :: left.lexemes ++
        ofText (" " ++ rel.symbol ++ " ") ++ right.lexemes ++
        [.sign ')']
  | .not e => .sign '!' :: e.lexemes

theorem reads_render
    (e : BoolExpr) :
    Reads e.render e.lexemes := by
  have hOpen : ReadsWhole (Text.ofString "(") [.sign '('] :=
    readsWhole_literal (by decide)
  have hClose : ReadsWhole (Text.ofString ")") [.sign ')'] :=
    readsWhole_literal (by decide)
  induction e with
  | constant value =>
      apply reads_word <;> cases value
      all_goals
        simp only [render, Bool.false_eq_true, if_false, if_true]
        rw [Text.ofString_ofList]
        decide
  | nonempty name =>
      have hTest :
          ReadsWhole (Text.ofString "[0] != \x27\x5c0\x27)")
            (ofText "[0] != \x27\x5c0\x27)") :=
        readsWhole_ofLiteral (by decide)
      exact ((hOpen.append_reads
        (StringExpr.variable name).reads_render).append_readsWhole
          hTest (separates_literal rfl)).reads
  | testPath test path =>
      exact (readsWhole_callText test.helper.isName_name
        path.reads_render).reads
  | compareStrings rel left right =>
      have hComma :
          ReadsWhole (Text.ofString ", ") [.sign ','] :=
        readsWhole_literal (by decide)
      have hArgs := (left.reads_render.append_readsWhole
        hComma (separates_literal rfl)).append_reads
          right.reads_render
      have hCall : ReadsWhole (callText "strcmp" _) _ :=
        readsWhole_callText (isName_literal rfl) hArgs
      have hZero :
          ReadsWhole (" " ++ rel.symbol ++ " 0)")
            (ofText (" " ++ rel.symbol ++ " 0)")) :=
        readsWhole_ofText rel.after_symbol.2
      have hAll := (hOpen.append hCall).append hZero
      simpa [render, lexemes] using hAll.reads
  | compareInts rel left right =>
      have hSymbol :
          ReadsWhole (" " ++ rel.symbol ++ " ")
            (ofText (" " ++ rel.symbol ++ " ")) :=
        readsWhole_ofText rel.after_symbol.1
      have hLeft := (hOpen.append_reads
        left.reads_render).append_readsWhole hSymbol
          (by rw [Text.ofString_ofList]; rfl)
      have hAll := (hLeft.append_reads
        right.reads_render).append_readsWhole hClose
          (separates_literal rfl)
      simpa [render, lexemes] using hAll.reads
  | not e ih =>
      have hNot : ReadsWhole (Text.ofString "!") [.sign '!'] :=
        readsWhole_literal (by decide)
      exact hNot.append_reads ih

end BoolExpr

------------------------------------------------------------
-- Arithmetic
------------------------------------------------------------

namespace Token

/- The lexemes of a token. -/
def lexemes : Token → List Lexeme
  | .var name => (IntExpr.ofString (.variable name)).lexemes
  | .status => [.word statusVariable]
  | .backgroundPid => [.word jobVariable]
  | .number numeral => [.word numeral]
  | .operator op => [.sign op.symbol]
  | .leftParen => [.sign '(']
  | .rightParen => [.sign ')']

/- A numeral is a digit and name characters behind it. -/
def IsLegible : Token → Prop
  | .number numeral =>
      numeral.head?.any Char.isDigit = true ∧
        numeral.all Text.isNameChar = true
  | _ => True

theorem reads_render
    {token : Token}
    (h : token.IsLegible) :
    Reads token.render token.lexemes := by
  cases token with
  | var name =>
      exact (IntExpr.ofString (.variable name)).reads_render
  | status => exact reads_name isName_statusVariable
  | backgroundPid => exact reads_name isName_jobVariable
  | number numeral =>
      refine reads_word ?_ h.2
      rintro rfl
      simpa using h.1
  | operator op =>
      by_cases hSlash : op = .slash
      · subst hSlash
        exact Lexeme.reads_slash
      · have hWhole :
            ReadsWhole [op.symbol] [.sign op.symbol] :=
          readsWhole_fixed (by
            cases op <;> first | contradiction | decide)
        exact hWhole.reads
  | leftParen =>
      have hWhole :
          ReadsWhole (Text.ofString "(") [.sign '('] :=
        readsWhole_literal (by decide)
      exact hWhole.reads
  | rightParen =>
      have hWhole :
          ReadsWhole (Text.ofString ")") [.sign ')'] :=
        readsWhole_literal (by decide)
      exact hWhole.reads

/- Tokens with spaces between them are read one by one. -/
theorem reads_joinWith_space
    {tokens : List Token}
    (hTokens : ∀ token ∈ tokens, token.IsLegible) :
    Reads (Text.joinWith " " (tokens.map render))
      (tokens.flatMap lexemes) := by
  induction tokens with
  | nil => exact readsWhole_nil.reads
  | cons token tokens ih =>
      have hFirst := reads_render (hTokens token (by simp))
      cases tokens with
      | nil =>
          simpa [Text.joinWith, List.intercalate] using hFirst
      | cons next tokens =>
          have hSpace :
              ReadsWhole (Text.ofString " ") [] :=
            readsWhole_literal (by decide)
          have hRest := ih (fun t ht =>
            hTokens t (List.mem_cons_of_mem _ ht))
          have hAll := hFirst.append
            (hSpace.append_reads hRest)
            (by rw [Text.ofString_eq]; rfl)
          simpa [Text.joinWith, List.intercalate] using hAll

/- A reference is no numeral. -/
theorem isLegible_of_readReference
    {text after : Text}
    {token : Token}
    (h : readReference text = .ok (some token, after)) :
    token.IsLegible := by
  cases token with
  | number numeral =>
      unfold readReference readBraced at h
      grind
  | _ => trivial

/- What is read as a numeral is one. -/
theorem isLegible_of_read
    {c : Char}
    {rest after : Text}
    {token : Token}
    (h : read c rest = .ok (some token, after)) :
    token.IsLegible := by
  cases token with
  | number numeral =>
      unfold read at h
      split at h
      · simp at h
      split at h
      · exact isLegible_of_readReference h
      split at h
      · simp at h
      split at h
      · rename_i hDigit
        simp only [Except.ok.injEq, Prod.mk.injEq,
          Option.some.injEq, number.injEq] at h
        obtain ⟨rfl, _⟩ := h
        have hName : Text.isNameChar c = true := by
          simp [Text.isNameChar, Char.isAlphanum, hDigit]
        refine ⟨by simpa using hDigit, ?_⟩
        simp [hName]
      split at h
      · simp at h
      split at h
      · simp at h
      · unfold readOperator at h
        split at h
        · split at h <;> simp at h
        · simp at h
  | _ => trivial

/- What holds of every token that is read holds of the tokens of a text. -/
theorem forall_of_ofText
    {P : Token → Prop}
    (hStep : ∀ {c : Char} {rest after : Text} {token : Token},
      read c rest = .ok (some token, after) → P token)
    {text : Text}
    {tokens : List Token}
    (h : ofText text = .ok tokens) :
    ∀ token ∈ tokens, P token := by
  fun_induction ofText text generalizing tokens with
  | case1 => simp_all
  | case2 => contradiction
  | case3 c rest token after hRead ih =>
      cases hAfter : ofText after with
      | error fault => simp [hAfter, Except.map] at h
      | ok others =>
          simp only [hAfter, Except.map, Except.ok.injEq] at h
          subst h
          intro t ht
          rcases List.mem_append.mp ht with ht | ht
          · cases token with
            | none => simp at ht
            | some token =>
                simp only [Option.toList_some,
                  List.mem_singleton] at ht
                subst ht
                exact hStep hRead
          · exact ih hAfter t ht

theorem isLegible_of_ofText
    {text : Text}
    {tokens : List Token}
    (h : ofText text = .ok tokens) :
    ∀ token ∈ tokens, token.IsLegible :=
  forall_of_ofText isLegible_of_read h

end Token

namespace ArithExpr

/- The lexemes of the expression. -/
def lexemes
    (e : ArithExpr) : List Lexeme :=
  .sign '(' :: e.tokens.flatMap Token.lexemes ++ [.sign ')']

/- The numerals of the expression are numerals. -/
def IsLegible
    (e : ArithExpr) : Prop :=
  ∀ token ∈ e.tokens, token.IsLegible

theorem readsWhole_render
    {e : ArithExpr}
    (h : e.IsLegible) :
    ReadsWhole e.render e.lexemes := by
  have hOpen : ReadsWhole (Text.ofString "(") [.sign '('] :=
    readsWhole_literal (by decide)
  have hClose : ReadsWhole (Text.ofString ")") [.sign ')'] :=
    readsWhole_literal (by decide)
  have hTokens := Token.reads_joinWith_space h
  exact (hOpen.append_reads hTokens).append_readsWhole hClose
    (separates_literal rfl)

/- An expression holds the tokens of its text. -/
theorem ofText_tokens
    {text : Text}
    {e : ArithExpr}
    (h : ofText text = .ok e) :
    Token.ofText text = .ok e.tokens := by
  unfold ofText at h
  split at h
  · contradiction
  · contradiction
  · rename_i tokens _ hTokens
    simp only [Except.ok.injEq] at h
    subst h
    exact hTokens

/- An expression that can be read at all is legible. -/
theorem isLegible_of_ofText
    {text : Text}
    {e : ArithExpr}
    (h : ofText text = .ok e) :
    e.IsLegible :=
  Token.isLegible_of_ofText (ofText_tokens h)

end ArithExpr

------------------------------------------------------------
-- Formatted Text
------------------------------------------------------------

namespace FormatArg

/- The lexemes of the value. -/
def lexemes : FormatArg → List Lexeme
  | .string e => e.lexemes
  | .status => [.word statusVariable]
  | .backgroundPid => [.word jobVariable]

theorem reads_render
    (arg : FormatArg) :
    Reads arg.render arg.lexemes := by
  cases arg with
  | string e => exact e.reads_render
  | status => exact reads_name isName_statusVariable
  | backgroundPid => exact reads_name isName_jobVariable

end FormatArg

namespace FormatCall

/- The lexemes of the call of a function that takes a format. -/
def lexemes
    (function : Text)
    (call : FormatCall) : List Lexeme :=
  Lexeme.call function
    (listed ([quoted call.format] ::
      call.args.map FormatArg.lexemes))

theorem readsWhole_render
    {function : Text}
    (hName : Text.isName function = true)
    (call : FormatCall) :
    ReadsWhole (call.render function)
      (call.lexemes function) := by
  have hArgs := reads_joinWith_comma
    ((Literal.quote call.format, [quoted call.format]) ::
      call.args.map fun arg => (arg.render, arg.lexemes))
    (by
      intro part hPart
      rcases List.mem_cons.mp hPart with rfl | hPart
      · exact (readsWhole_quote call.format).reads
      · rcases List.mem_map.mp hPart with ⟨arg, _, rfl⟩
        exact arg.reads_render)
  have hCall := readsWhole_callText hName hArgs
  simpa [render, lexemes, Function.comp_def] using hCall

end FormatCall

------------------------------------------------------------
-- Lines
------------------------------------------------------------

namespace Line

/- The lexemes that set the status of the last command. -/
def statusLexemes
    (value : List Lexeme) : List Lexeme :=
  .word statusVariable :: .sign '=' :: value ++ [.sign ';']

/- The lexemes that give a variable of the script a value. -/
def assignLexemes
    (name : Text)
    (value : List Lexeme) : List Lexeme :=
  call "setenv"
      (quoted name :: .sign ',' :: value ++ ofText ", 1") ++
    [.sign ';']

/- The lexemes of a list of values in braces. -/
def listLexemes
    (values : List (List Lexeme)) : List Lexeme :=
  .sign '\x7b' :: listed values ++ [.sign '\x7d']

/-
  The lexemes of a line.  A line without parts that vary is
  read as it stands.
-/
def lexemes : Line → List Lexeme
  | .marker _ _ _ => []
  | .openItems loop count =>
      ofText "for (size_t " ++ .word (indexName loop) ::
        ofText " = 0; " ++ .word (indexName loop) ::
        .sign '<' :: .word (Text.ofNat count) :: .sign ';' ::
        .word (indexName loop) :: ofText "++) \x7b"
  | .setStatus e =>
      statusLexemes
        (.sign '(' :: e.lexemes ++ ofText ") ? 0 : 1")
  | .run command =>
      statusLexemes (call Helper.run.name command.lexemes)
  | .changeDir dir =>
      statusLexemes
        (call "chdir" dir.lexemes ++ ofText " == 0 ? 0 : 1")
  | .startJob command =>
      .word jobVariable :: .sign '=' ::
        call Helper.background.name command.lexemes ++
        [.sign ';']
  | .exit code =>
      ofText "return (int)(" ++ code.lexemes ++ ofText ");"
  | .assign name value => assignLexemes name value.lexemes
  | .assignItem name loop =>
      assignLexemes name
        [.word (itemsName loop), .sign '[',
         .word (indexName loop), .sign ']']
  | .assignInt name value =>
      call Helper.setInt.name
          (quoted name :: .sign ',' :: value.lexemes) ++
        [.sign ';']
  | .printLine text =>
      call "puts" [quoted text] ++ [.sign ';']
  | .printText text =>
      call "fputs" (quoted text :: ofText ", stdout") ++
        [.sign ';']
  | .printFormat c => c.lexemes "printf" ++ [.sign ';']
  | .printInt value =>
      call "printf"
          (quoted "%ld\n" :: ofText ", (long)" ++
            value.lexemes) ++
        [.sign ';']
  | .declareBuilt temp c =>
      ofText "char *" ++ .word temp.name :: .sign '=' ::
        c.lexemes Helper.format.name ++ [.sign ';']
  | .declareOutput command =>
      ofText "char *" ++ .word Temporary.output.name ::
        .sign '=' ::
        call Helper.capture.name command.lexemes ++
        [.sign ';']
  | .declareStages commands =>
      ofText "const char *sh_cmds[" ++
        .word (Text.ofNat commands.length) ::
        ofText "] = " ++
        listLexemes (commands.map StringExpr.lexemes) ++
        [.sign ';']
  | .declareStatuses count =>
      ofText "int sh_statuses[" ++
        .word (Text.ofNat count) :: ofText "];"
  | .declareResult count =>
      ofText "int sh_rc = " ++
        call Helper.pipeline.name
          (ofText "sh_cmds, " ++ .word (Text.ofNat count) ::
            ofText ", sh_statuses") ++
        [.sign ';']
  | .declareItems loop items =>
      ofText "static const char *const " ++
        .word (itemsName loop) :: ofText "[] = " ++
        listLexemes (items.map fun text => [quoted text]) ++
        [.sign ';']
  | .declareBuiltItems loop items =>
      ofText "char *" ++ .word (itemsName loop) ::
        ofText "[] = " ++
        listLexemes
          (items.map (FormatCall.lexemes Helper.format.name)) ++
        [.sign ';']
  | .free temp =>
      call "free" [.word temp.name] ++ [.sign ';']
  | .freeItem loop index =>
      call "free"
          [.word (itemsName loop), .sign '[',
           .word (Text.ofNat index), .sign ']'] ++
        [.sign ';']
  | line => ofText line.render

/- The parts of lines that do not vary, other than whole lines. -/
abbrev fixedParts : List Text :=
  ["for (size_t ", " = 0; ", ") ? 0 : 1", " == 0 ? 0 : 1",
   "return (int)(", ");", ", 1", ", stdout", ", (long)",
   "char *", "const char *sh_cmds[", "] = ",
   "int sh_statuses[", "];", "int sh_rc = ", "sh_cmds, ",
   ", sh_statuses", "static const char *const ", "[] = "]

/-
  A line is legible if no text of the script can be taken
  for C: the file name does not end the comment of a marker,
  and the numerals of arithmetic are numerals.
-/
def IsLegible : Line → Prop
  | .marker file _ _ => Text.occursIn "*/" file = false
  | .verbatim _ => False
  | .assignInt _ value => value.IsLegible
  | .printInt value => value.IsLegible
  | _ => True

------------------------------------------------------------
-- Reading Lines
------------------------------------------------------------

theorem isName_itemsName
    (loop : Nat) :
    Text.isName (itemsName loop) = true :=
  Text.isName_append_ofNat (isName_literal rfl) loop

theorem isName_indexName
    (loop : Nat) :
    Text.isName (indexName loop) = true :=
  Text.isName_append_ofNat (isName_literal rfl) loop

/- Parting comment ends does not change how a text starts. -/
theorem head?_partCommentEnds
    (text : Text) :
    (partCommentEnds text).head? = text.head? := by
  fun_cases partCommentEnds text <;> rfl

/- No comment end is left where they are parted. -/
theorem occursIn_partCommentEnds
    (text : Text) :
    Text.occursIn "*/" (partCommentEnds text) = false := by
  fun_induction partCommentEnds text with
  | case1 rest ih =>
      simpa [occursIn_commentEnd_cons] using ih
  | case2 c rest hNoEnd ih =>
      refine (occursIn_commentEnd_cons _ _).mpr ⟨?_, ih⟩
      rintro rfl hHead
      rw [head?_partCommentEnds] at hHead
      rcases List.head?_eq_some_iff.mp hHead with ⟨tail, rfl⟩
      exact hNoEnd tail rfl rfl
  | case3 =>
      rw [Text.ofString_ofList]
      decide

/- A number ends no comment. -/
theorem occursIn_commentEnd_ofNat
    (n : Nat) :
    Text.occursIn "*/" (Text.ofNat n) = false := by
  apply occursIn_commentEnd_of_all
  rintro c hc rfl
  exact absurd (Nat.isDigit_of_mem_toDigits (by decide)
    (by decide) hc) (by decide)

/- A marker is a comment, unless its file name ends it. -/
theorem readsWhole_marker
    {file : Text}
    (hFile : Text.occursIn "*/" file = false)
    (line : Nat)
    (message : Text) :
    ReadsWhole (render (.marker file line message)) [] := by
  intro rest
  have hLine := occursIn_commentEnd_ofNat line
  have hMessage := occursIn_partCommentEnds message
  simp only [render, Text.ofString_eq, List.append_assoc]
  -- What follows each part is no slash, so none ends the comment.
  change Lexer.blockComment.read (file ++ ':' :: _) = _
  rw [read_comment _ _ _ _ hFile (Or.inl rfl) (by decide)]
  change Lexer.blockComment.read (Text.ofNat line ++ ':' :: _) = _
  rw [read_comment _ _ _ _ hLine (Or.inl rfl) (by decide)]
  change Lexer.blockComment.read
    (partCommentEnds message ++ ' ' :: _) = _
  rw [read_comment _ _ _ _ hMessage (Or.inl rfl) (by decide)]
  rfl

/- Setting the status is read part by part. -/
theorem readsWhole_statusText
    {value : Text}
    {ls : List Lexeme}
    (h : Reads value ls) :
    ReadsWhole (statusText value) (statusLexemes ls) := by
  have hEquals : ReadsWhole (Text.ofString " = ") [.sign '='] :=
    readsWhole_literal (by decide)
  have hHead :=
    (reads_name isName_statusVariable).append_readsWhole hEquals
      (separates_literal rfl)
  have hEnd : ReadsWhole (Text.ofString ";") [.sign ';'] :=
    readsWhole_literal (by decide)
  exact (hHead.append_reads h).append_readsWhole hEnd
    (separates_literal rfl)

/- An assignment is read part by part. -/
theorem readsWhole_assignText
    (name : Text)
    {value : Text}
    {ls : List Lexeme}
    (h : Reads value ls) :
    ReadsWhole (assignText name value)
      (assignLexemes name ls) := by
  have hComma : ReadsWhole (Text.ofString ", ") [.sign ','] :=
    readsWhole_literal (by decide)
  have hOne : Reads (Text.ofString ", 1") (ofText ", 1") :=
    reads_ofLiteral (by decide)
  have hEnd : ReadsWhole (Text.ofString ";") [.sign ';'] :=
    readsWhole_literal (by decide)
  have hArgs := ((readsWhole_quote name).append
    hComma).append_reads (h.append hOne (separates_literal rfl))
  have hCall : ReadsWhole (callText "setenv" _) _ :=
    readsWhole_callText (isName_literal rfl) hArgs
  simpa [assignText, assignLexemes, quoted] using
    hCall.append hEnd

/- A list in braces is read part by part. -/
theorem readsWhole_listText
    (parts : List (Text × List Lexeme))
    (hParts : ∀ part ∈ parts, Reads part.1 part.2) :
    ReadsWhole (listText (parts.map Prod.fst))
      (listLexemes (parts.map Prod.snd)) := by
  have hOpen :
      ReadsWhole (Text.ofString "\x7b ") [.sign '\x7b'] :=
    readsWhole_literal (by decide)
  have hClose :
      ReadsWhole (Text.ofString " \x7d") [.sign '\x7d'] :=
    readsWhole_literal (by decide)
  exact (hOpen.append_reads
    (reads_joinWith_comma parts hParts)).append_readsWhole
      hClose (separates_literal rfl)

/- The place of an item is read part by part. -/
theorem reads_place
    {array index : Text}
    (hArray : Text.isName array = true)
    {ls : List Lexeme}
    (hIndex : Reads index ls) :
    ReadsWhole (array ++ "[" ++ index ++ "]")
      (.word array :: .sign '[' :: ls ++ [.sign ']']) := by
  have hOpen : ReadsWhole (Text.ofString "[") [.sign '['] :=
    readsWhole_literal (by decide)
  have hClose : ReadsWhole (Text.ofString "]") [.sign ']'] :=
    readsWhole_literal (by decide)
  exact (((reads_name hArray).append_readsWhole hOpen
    (separates_literal rfl)).append_reads hIndex).append_readsWhole
      hClose (separates_literal rfl)

/- The head of a loop over items is read part by part. -/
theorem readsWhole_openItems
    (loop count : Nat) :
    ReadsWhole (render (.openItems loop count))
      (lexemes (.openItems loop count)) := by
  have hIndex := reads_name (isName_indexName loop)
  have hHead : ReadsWhole (Text.ofString "for (size_t ")
      (ofText "for (size_t ") :=
    readsWhole_ofLiteral (by decide)
  have hZero : ReadsWhole (Text.ofString " = 0; ")
      (ofText " = 0; ") :=
    readsWhole_ofLiteral (by decide)
  have hLess : ReadsWhole (Text.ofString " < ") [.sign '<'] :=
    readsWhole_literal (by decide)
  have hSemicolon :
      ReadsWhole (Text.ofString "; ") [.sign ';'] :=
    readsWhole_literal (by decide)
  have hOpen : ReadsWhole (Text.ofString "++) \x7b")
      (ofText "++) \x7b") :=
    readsWhole_ofLiteral (by decide)
  have hStart := (hHead.append_reads
    hIndex).append_readsWhole hZero (separates_literal rfl)
  have hTest := (hStart.append_reads
    hIndex).append_readsWhole hLess (separates_literal rfl)
  have hCount := (hTest.append_reads
    (Text.reads_ofNat count)).append_readsWhole hSemicolon
      (separates_literal rfl)
  have hAll := (hCount.append_reads
    hIndex).append_readsWhole hOpen (separates_literal rfl)
  simpa [render, lexemes] using hAll

/- A text that is kept in a variable is read part by part. -/
theorem readsWhole_charText
    {name value : Text}
    {ls : List Lexeme}
    (hName : Text.isName name = true)
    (hValue : ReadsWhole value ls) :
    ReadsWhole ("char *" ++ name ++ " = " ++ value ++ ";")
      (ofText "char *" ++ .word name :: .sign '=' :: ls ++
        [.sign ';']) := by
  have hChar :
      ReadsWhole (Text.ofString "char *") (ofText "char *") :=
    readsWhole_ofLiteral (by decide)
  have hEquals : ReadsWhole (Text.ofString " = ") [.sign '='] :=
    readsWhole_literal (by decide)
  have hEnd : ReadsWhole (Text.ofString ";") [.sign ';'] :=
    readsWhole_literal (by decide)
  have hHead := (hChar.append_reads
    (reads_name hName)).append_readsWhole hEquals
      (separates_literal rfl)
  simpa using (hHead.append hValue).append hEnd

/- The items of a loop are read part by part. -/
theorem readsWhole_itemsText
    {head : Text}
    (hHead : ReadsWhole head (ofText head))
    (loop : Nat)
    (parts : List (Text × List Lexeme))
    (hParts : ∀ part ∈ parts, Reads part.1 part.2) :
    ReadsWhole
      (head ++ itemsName loop ++ "[] = " ++
        listText (parts.map Prod.fst) ++ ";")
      (ofText head ++ .word (itemsName loop) ::
        ofText "[] = " ++ listLexemes (parts.map Prod.snd) ++
        [.sign ';']) := by
  have hItems :
      ReadsWhole (Text.ofString "[] = ") (ofText "[] = ") :=
    readsWhole_ofLiteral (by decide)
  have hEnd : ReadsWhole (Text.ofString ";") [.sign ';'] :=
    readsWhole_literal (by decide)
  have hName := (hHead.append_reads
    (reads_name (isName_itemsName loop))).append_readsWhole
      hItems (separates_literal rfl)
  simpa using
    (hName.append (readsWhole_listText parts hParts)).append
      hEnd

/- A legible line is read as its lexemes. -/
theorem readsWhole_render
    {line : Line}
    (h : line.IsLegible) :
    ReadsWhole line.render line.lexemes := by
  have hEnd : ReadsWhole (Text.ofString ";") [.sign ';'] :=
    readsWhole_literal (by decide)
  have hComma : ReadsWhole (Text.ofString ", ") [.sign ','] :=
    readsWhole_literal (by decide)
  cases line with
  | marker file line message =>
      exact readsWhole_marker h line message
  | verbatim text => exact h.elim
  | openItems loop count =>
      exact readsWhole_openItems loop count
  | setStatus e =>
      have hOpen : ReadsWhole (Text.ofString "(") [.sign '('] :=
        readsWhole_literal (by decide)
      have hChoice : Reads (Text.ofString ") ? 0 : 1")
          (ofText ") ? 0 : 1") :=
        reads_ofLiteral (by decide)
      exact readsWhole_statusText ((hOpen.append_reads
        e.reads_render).append hChoice (separates_literal rfl))
  | run command =>
      exact readsWhole_statusText (readsWhole_callText
        Helper.run.isName_name command.reads_render).reads
  | changeDir dir =>
      have hChoice : Reads (Text.ofString " == 0 ? 0 : 1")
          (ofText " == 0 ? 0 : 1") :=
        reads_ofLiteral (by decide)
      have hCall : ReadsWhole (callText "chdir" _) _ :=
        readsWhole_callText (isName_literal rfl)
          dir.reads_render
      exact readsWhole_statusText (hCall.append_reads hChoice)
  | startJob command =>
      have hEquals :
          ReadsWhole (Text.ofString " = ") [.sign '='] :=
        readsWhole_literal (by decide)
      have hHead :=
        (reads_name isName_jobVariable).append_readsWhole hEquals
          (separates_literal rfl)
      have hCall := readsWhole_callText
        Helper.background.isName_name command.reads_render
      exact (hHead.append hCall).append hEnd
  | exit code =>
      have hHead : ReadsWhole (Text.ofString "return (int)(")
          (ofText "return (int)(") :=
        readsWhole_ofLiteral (by decide)
      have hTail : ReadsWhole (Text.ofString ");") (ofText ");") :=
        readsWhole_ofLiteral (by decide)
      exact (hHead.append_reads
        code.reads_render).append_readsWhole hTail
          (separates_literal rfl)
  | assign name value =>
      exact readsWhole_assignText name value.reads_render
  | assignItem name loop =>
      exact readsWhole_assignText name
        (reads_place (isName_itemsName loop)
          (reads_name (isName_indexName loop))).reads
  | assignInt name value =>
      have hArgs := ((readsWhole_quote name).append
        hComma).append (ArithExpr.readsWhole_render h)
      exact (readsWhole_callText Helper.setInt.isName_name
        hArgs.reads).append hEnd
  | printLine text =>
      have hCall : ReadsWhole (callText "puts" _) _ :=
        readsWhole_callText (isName_literal rfl)
          (readsWhole_quote text).reads
      exact hCall.append hEnd
  | printText text =>
      have hStdout : Reads (Text.ofString ", stdout")
          (ofText ", stdout") :=
        reads_ofLiteral (by decide)
      have hCall : ReadsWhole (callText "fputs" _) _ :=
        readsWhole_callText (isName_literal rfl)
          ((readsWhole_quote text).append_reads hStdout)
      exact hCall.append hEnd
  | printFormat call =>
      exact (FormatCall.readsWhole_render (isName_literal rfl)
        call).append hEnd
  | printInt value =>
      have hLong : ReadsWhole (Text.ofString ", (long)")
          (ofText ", (long)") :=
        readsWhole_ofLiteral (by decide)
      have hArgs := ((readsWhole_quote "%ld\n").append
        hLong).append (ArithExpr.readsWhole_render h)
      have hCall : ReadsWhole (callText "printf" _) _ :=
        readsWhole_callText (isName_literal rfl) hArgs.reads
      exact hCall.append hEnd
  | declareBuilt temp call =>
      exact readsWhole_charText temp.isName_name
        (FormatCall.readsWhole_render
          Helper.format.isName_name call)
  | declareOutput command =>
      exact readsWhole_charText Temporary.output.isName_name
        (readsWhole_callText Helper.capture.isName_name
          command.reads_render)
  | declareStages commands =>
      have hHead :
          ReadsWhole (Text.ofString "const char *sh_cmds[")
            (ofText "const char *sh_cmds[") :=
        readsWhole_ofLiteral (by decide)
      have hClose :
          ReadsWhole (Text.ofString "] = ") (ofText "] = ") :=
        readsWhole_ofLiteral (by decide)
      have hCount := (hHead.append_reads
        (Text.reads_ofNat commands.length)).append_readsWhole
          hClose (separates_literal rfl)
      have hList := readsWhole_listText
        (commands.map fun e => (e.render, e.lexemes)) (by
          intro part hPart
          rcases List.mem_map.mp hPart with ⟨e, _, rfl⟩
          exact e.reads_render)
      simpa [render, lexemes, Function.comp_def] using
        (hCount.append hList).append hEnd
  | declareStatuses count =>
      have hHead :
          ReadsWhole (Text.ofString "int sh_statuses[")
            (ofText "int sh_statuses[") :=
        readsWhole_ofLiteral (by decide)
      have hTail : ReadsWhole (Text.ofString "];") (ofText "];") :=
        readsWhole_ofLiteral (by decide)
      simpa [render, lexemes] using (hHead.append_reads
        (Text.reads_ofNat count)).append_readsWhole hTail
          (separates_literal rfl)
  | declareResult count =>
      have hHead : ReadsWhole (Text.ofString "int sh_rc = ")
          (ofText "int sh_rc = ") :=
        readsWhole_ofLiteral (by decide)
      have hStages : ReadsWhole (Text.ofString "sh_cmds, ")
          (ofText "sh_cmds, ") :=
        readsWhole_ofLiteral (by decide)
      have hStatuses : Reads (Text.ofString ", sh_statuses")
          (ofText ", sh_statuses") :=
        reads_ofLiteral (by decide)
      have hArgs := (hStages.append_reads
        (Text.reads_ofNat count)).append hStatuses
          (separates_literal rfl)
      have hCall := readsWhole_callText
        Helper.pipeline.isName_name hArgs
      simpa [render, lexemes] using
        (hHead.append hCall).append hEnd
  | declareItems loop items =>
      have hHead :
          ReadsWhole (Text.ofString "static const char *const ")
            (ofText "static const char *const ") :=
        readsWhole_ofLiteral (by decide)
      have hAll := readsWhole_itemsText hHead loop
        (items.map fun text =>
          (Literal.quote text, [quoted text])) (by
          intro part hPart
          rcases List.mem_map.mp hPart with ⟨text, _, rfl⟩
          exact (readsWhole_quote text).reads)
      simpa [render, lexemes, Function.comp_def] using hAll
  | declareBuiltItems loop items =>
      have hHead : ReadsWhole (Text.ofString "char *")
          (ofText "char *") :=
        readsWhole_ofLiteral (by decide)
      have hAll := readsWhole_itemsText hHead loop
        (items.map fun call =>
          (call.renderBuild,
            call.lexemes Helper.format.name)) (by
          intro part hPart
          rcases List.mem_map.mp hPart with ⟨call, _, rfl⟩
          exact (FormatCall.readsWhole_render
            Helper.format.isName_name call).reads)
      simpa [render, lexemes, Function.comp_def] using hAll
  | free temp =>
      have hCall : ReadsWhole (callText "free" _) _ :=
        readsWhole_callText (isName_literal rfl)
          (reads_name temp.isName_name)
      exact hCall.append hEnd
  | freeItem loop index =>
      have hCall : ReadsWhole (callText "free" _) _ :=
        readsWhole_callText (isName_literal rfl)
          (reads_place (isName_itemsName loop)
            (Text.reads_ofNat index)).reads
      exact hCall.append hEnd
  | _ => exact readsWhole_ofText (by decide +kernel)

end Line

end ShellToC
