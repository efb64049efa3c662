import ShellToC.Proofs.TokenGrammar

/-
  This file writes the tokens of an arithmetic expression
  side by side, in the script and in C.

  In both languages a blank stands between two tokens, and no
  token is read together with the next one.  The operators of
  C that are longer than one character and the numbers that
  take in a sign never arise from two tokens.

  Key definitions include:
    * `Token.lexeme`
    * `Token.spell`
    * `Token.cTokens`

  Main declarations:
    * `Token.ofText_joinWith_spell`
    * `Token.reads_textOf`
    * `Token.tokens_read_back`
-/

namespace ShellToC

namespace Token

------------------------------------------------------------
-- Tokens in the Script
------------------------------------------------------------

/- The lexeme that a token is written as.  Variables need no dollar sign. -/
def lexeme : Token → ArithLexeme
  | .var name => .plain name
  | .status => .status
  | .backgroundPid => .backgroundPid
  | .number numeral => .numeral numeral
  | .operator op => .operator op
  | .leftParen => .leftParen
  | .rightParen => .rightParen

/- The text of a token in the script. -/
def spell
    (t : Token) : Text :=
  t.lexeme.text

theorem token?_lexeme
    (t : Token) :
    t.lexeme.token? = some t := by
  cases t <;> rfl

/- What is read can be written. -/
theorem isWellFormed_lexeme_of_read
    {c : Char}
    {rest after : Text}
    {t : Token}
    (h : read c rest = .ok (some t, after)) :
    t.lexeme.isWellFormed = true := by
  have hLegible := isLegible_of_read h
  have hNamed := isNamed_of_read h
  cases t with
  | var name => exact hNamed
  | number numeral => exact Bool.and_eq_true_iff.mpr hLegible
  | _ => rfl

/- A token is read up to the blank behind it. -/
theorem ofText_spell_append
    {t : Token}
    (h : t.lexeme.isWellFormed = true)
    {rest : Text}
    (hRest : rest.head?.all Text.isBlank = true) :
    ofText (t.spell ++ rest) = (ofText rest).map (t :: ·) := by
  have hStops : t.lexeme.StopsBefore rest := by
    intro _
    rw [Option.all_eq_true] at hRest ⊢
    intro c hc
    rw [Lexeme.isNameChar_of_isBlank (hRest c hc)]
    rfl
  have hStar : rest.head? ≠ some '*' := by
    intro hHead
    rw [hHead] at hRest
    exact absurd hRest (by decide)
  rw [spell, ofText_lexeme_append
    (ArithLexeme.leads_append_iff.mpr ⟨h, hStops⟩) (fun _ => hStar),
    token?_lexeme]
  rfl

/- A blank before a text is left out. -/
theorem ofText_blank
    (text : Text) :
    ofText (' ' :: text) = ofText text := by
  have hRead : read ' ' text = .ok (none, text) := rfl
  rw [ofText_cons hRead]
  cases ofText text <;> rfl

/- Tokens with blanks between them are read as they are. -/
theorem ofText_joinWith_spell
    {ts : List Token}
    (h : ∀ t ∈ ts, t.lexeme.isWellFormed = true) :
    ofText (Text.joinWith " " (ts.map spell)) = .ok ts := by
  have hBlank : Text.ofString " " = [' '] := Text.ofString_ofList _
  induction ts with
  | nil =>
      rw [List.map_nil, Text.joinWith, List.intercalate_nil, ofText]
  | cons t ts ih =>
      rw [List.forall_mem_cons] at h
      by_cases hNil : ts = []
      · have hText : ofText (t.spell ++ []) =
            (ofText []).map (t :: ·) :=
          ofText_spell_append h.1 rfl
        rw [List.append_nil, ofText] at hText
        rw [hNil, List.map_singleton, Text.joinWith,
          List.intercalate_singleton, hText]
        rfl
      · have hRest := ih h.2
        rw [Text.joinWith] at hRest ⊢
        rw [List.map_cons, List.intercalate_cons_of_ne_nil
          (by simpa using hNil), hBlank, List.append_assoc,
          ofText_spell_append h.1 rfl]
        rw [hBlank] at hRest
        rw [List.singleton_append, ofText_blank, hRest]
        rfl

------------------------------------------------------------
-- Tokens in C
------------------------------------------------------------

/- The operand, operator or parenthesis of C that a token stands for. -/
def cTokens : Token → List CToken
  | .var name =>
      [.word "sh_int", .sign ['('], .word "sh_var", .sign ['('],
        .literal '\x22' name, .sign [')'], .sign [')']]
  | .status => [.word "last_status"]
  | .backgroundPid => [.word "last_bg_pid"]
  | .number numeral => [.number numeral]
  | .operator op => [.sign [op.symbol]]
  | .leftParen => [.sign ['(']]
  | .rightParen => [.sign [')']]

/- The characters of a name stand for themselves in a literal. -/
theorem escapeFrom_of_all_isNameChar
    {name : Text}
    (h : name.all Text.isNameChar = true)
    (afterQuestion : Bool) :
    Literal.escapeFrom afterQuestion name = name := by
  induction name generalizing afterQuestion with
  | nil => rfl
  | cons c name ih =>
      rw [List.all_cons, Bool.and_eq_true] at h
      have hNe {d : Char} (hd : Text.isNameChar d = false) :
          c ≠ d := by
        rintro rfl
        simp [hd] at h
      have hControl : Literal.isControl c = false := by
        have hRange := Lexeme.toNat_of_isNameChar h.1
        simp only [Literal.isControl, Bool.or_eq_false_iff,
          decide_eq_false_iff_not, beq_eq_false_iff_ne]
        omega
      have hEscape : Literal.escape afterQuestion c = [c] := by
        unfold Literal.escape
        simp (disch := decide) [hNe, hControl]
      rw [Literal.escapeFrom, hEscape, ih h.2]
      rfl

/- A call of a function with one argument. -/
theorem reads_callText
    {function arguments : Text}
    (hName : Text.isName function = true)
    {ts : List CToken}
    (h : CToken.Reads arguments ts) :
    CToken.Reads (callText function arguments)
      (.word function :: .sign ['('] :: (ts ++ [.sign [')']])) := by
  rw [CExpr.callText_eq]
  exact (CToken.reads_name hName).append_apart
    (CExpr.reads_enclosed h) rfl

/- The text of a token in C. -/
theorem reads_render_cTokens
    {t : Token}
    (h : t.lexeme.isWellFormed = true) :
    CToken.Reads t.render t.cTokens := by
  cases t with
  | var name =>
      have hLiteral := CToken.reads_quote name
      rw [escapeFrom_of_all_isNameChar
        (Text.all_isNameChar_of_isName h)] at hLiteral
      exact reads_callText Helper.int.isName_name
        (reads_callText Helper.var.isName_name hLiteral)
  | status => exact CToken.reads_name isName_statusVariable
  | backgroundPid => exact CToken.reads_name isName_jobVariable
  | number numeral =>
      rcases Bool.and_eq_true_iff.mp h with ⟨hHead, hAll⟩
      exact CToken.reads_number hHead hAll
  | operator op => cases op <;> exact CToken.reads_fixed (by decide)
  | leftParen =>
      rw [render, Text.ofString_ofList]
      exact CToken.reads_fixed (by decide)
  | rightParen =>
      rw [render, Text.ofString_ofList]
      exact CToken.reads_fixed (by decide)

/- The blanks between tokens keep them apart in C. -/
theorem reads_textOf
    {ts : List Token}
    (h : ∀ t ∈ ts, t.lexeme.isWellFormed = true) :
    CToken.Reads (textOf ts) (ts.flatMap cTokens) := by
  induction ts with
  | nil => exact CToken.reads_fixed (by decide)
  | cons t ts ih =>
      rw [List.forall_mem_cons] at h
      have hFirst := reads_render_cTokens h.1
      rw [List.flatMap_cons]
      by_cases hNil : ts = []
      · rw [hNil, textOf_singleton, List.flatMap_nil, List.append_nil]
        exact hFirst
      · rw [textOf_cons t hNil]
        exact hFirst.append_apart
          (CExpr.reads_blank.append_closed (ih h.2) (by decide)) rfl

------------------------------------------------------------
-- Texts of an Expression
------------------------------------------------------------

/-
  The tokens of a text are read back from their own texts with
  blanks between them.  If there is one, the text has an
  expression, in whose C text each token stands for what it
  denotes and nothing else, by the rule of the longest match.
-/
theorem tokens_read_back
    {body : Text}
    {ts : List Token}
    (h : ofText body = .ok ts) :
    ofText (Text.joinWith " " (ts.map spell)) = .ok ts ∧
    (ts ≠ [] → ∃ e, ArithExpr.ofText body = .ok e ∧
      CToken.ofText e.render =
        .sign ['('] :: (ts.flatMap cTokens ++ [.sign [')']])) := by
  have hForm := forall_of_ofText isWellFormed_lexeme_of_read h
  refine ⟨ofText_joinWith_spell hForm, fun hNonempty => ?_⟩
  refine ⟨⟨ts⟩, ?_, ?_⟩
  · cases ts with
    | nil => contradiction
    | cons t ts => rw [ArithExpr.ofText, h]
  · have hRender : (ArithExpr.mk ts).render =
        '(' :: (textOf ts ++ [')']) := by
      have hOpen : Text.ofString "(" = ['('] := Text.ofString_ofList _
      have hClose : Text.ofString ")" = [')'] := Text.ofString_ofList _
      rw [ArithExpr.render, hOpen, hClose]
      rfl
    rw [hRender]
    exact (CExpr.reads_enclosed (reads_textOf hForm)).ofText_eq

/- Signs that would be one token, or a comment, side by side in C. -/
theorem tokens_read_back_of_adjacent :
    let body : Text := "1e++x--0xE//*$?^(%$!$\x7by\x7d"
    let ts : List Token :=
      [.number "1e", .operator .plus, .operator .plus, .var "x",
        .operator .minus, .operator .minus, .number "0xE",
        .operator .slash, .operator .slash, .operator .times,
        .status, .operator .caret, .leftParen, .operator .percent,
        .backgroundPid, .var "y"]
    ofText body = .ok ts ∧ ts ≠ [] ∧
    ofText (Text.joinWith " " (ts.map spell)) = .ok ts ∧
    ∃ e, ArithExpr.ofText body = .ok e ∧
      CToken.ofText e.render =
        .sign ['('] :: (ts.flatMap cTokens ++ [.sign [')']]) := by
  intro body ts
  have hOk : ofText body = .ok ts :=
    eq_ok_of_toOption (by decide +kernel)
  have hNonempty : ts ≠ [] := List.cons_ne_nil _ _
  rcases tokens_read_back hOk with ⟨hSpelled, hRead⟩
  exact ⟨hOk, hNonempty, hSpelled, hRead hNonempty⟩

end Token

end ShellToC
