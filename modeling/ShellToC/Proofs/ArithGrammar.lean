import ShellToC.Proofs.ExprMeaning

/-
  This file says which tokens make up an arithmetic
  expression, and that C reads the same expression from
  their text.

  There are three levels of operators, each of which groups
  to the left, and signs before an operand.  A sign is taken
  by itself, so two minus signs negate twice.  Each token
  stands between blanks in the C text, so no two of them are
  read as one.

  Key definitions include:
    * `ArithTree`
    * `ArithTree.Derives`
    * `ArithTree.toC`

  Main declarations:
    * `ArithTree.Derives.spells`
    * `ArithTree.Derives.ofText?_render`
    * `ArithTree.Derives.isName_of_ofText`
-/

namespace ShellToC

open CExpr

------------------------------------------------------------
-- Grammar
------------------------------------------------------------

/- How tightly an operator binds. -/
def Operator.level : Operator → Nat
  | .caret => 0
  | .plus => 1
  | .minus => 1
  | .times => 2
  | .slash => 2
  | .percent => 2

/- An arithmetic expression. -/
inductive ArithTree where
  | number (numeral : Text)
  | var (name : Text)
  | status
  | backgroundPid
  | minus (e : ArithTree)
  | plus (e : ArithTree)
  | binary (op : Operator) (left right : ArithTree)
  deriving DecidableEq, Repr

namespace ArithTree

/-
  The tokens make up the expression, in which no operator
  outside of parentheses binds less tightly than the level.
  The right operand binds more tightly than its operator.
-/
inductive Derives : Nat → List Token → ArithTree → Prop where
  | number (numeral : Text) :
      Derives 3 [.number numeral] (.number numeral)
  | var (name : Text) : Derives 3 [.var name] (.var name)
  | status : Derives 3 [.status] .status
  | backgroundPid : Derives 3 [.backgroundPid] .backgroundPid
  | paren {ts : List Token} {e : ArithTree}
      (h : Derives 0 ts e) :
      Derives 3 (.leftParen :: (ts ++ [.rightParen])) e
  | minus {ts : List Token} {e : ArithTree}
      (h : Derives 3 ts e) :
      Derives 3 (.operator .minus :: ts) (.minus e)
  | plus {ts : List Token} {e : ArithTree}
      (h : Derives 3 ts e) :
      Derives 3 (.operator .plus :: ts) (.plus e)
  | binary (op : Operator) {ts us : List Token}
      {a b : ArithTree}
      (ha : Derives op.level ts a)
      (hb : Derives (op.level + 1) us b) :
      Derives op.level (ts ++ .operator op :: us)
        (.binary op a b)
  | lower {m n : Nat} {ts : List Token} {e : ArithTree}
      (hLevel : m ≤ n)
      (h : Derives n ts e) : Derives m ts e

/- The C expression of an arithmetic expression. -/
def toC : ArithTree → CExpr
  | .number numeral => .number numeral
  | .var name => (IntExpr.ofString (.variable name)).toC
  | .status => IntExpr.status.toC
  | .backgroundPid => IntExpr.backgroundPid.toC
  | .minus e => .unary .minus e.toC
  | .plus e => .unary .plus e.toC
  | .binary op left right =>
      .binary (.arith op) left.toC right.toC

theorem Derives.ne_nil
    {level : Nat}
    {ts : List Token}
    {e : ArithTree}
    (h : Derives level ts e) :
    ts ≠ [] := by
  induction h with
  | lower hLevel h ih => exact ih
  | binary op ha hb iha ihb => simp
  | _ => simp

end ArithTree

------------------------------------------------------------
-- Blanks
------------------------------------------------------------

namespace CExpr

theorem reads_blank : CToken.Reads [' '] [] :=
  CToken.reads_fixed (by decide)

/- A blank before an expression is not a part of it. -/
theorem Spells.blank_before
    {level : Nat}
    {text : Text}
    {e : CExpr}
    (h : Spells level text e) :
    Spells level (' ' :: text) e := by
  rcases h with ⟨ts, hReads, hYields⟩
  exact ⟨ts, reads_blank.append_closed hReads (by decide),
    hYields⟩

/- A blank behind an expression is not a part of it. -/
theorem Spells.blank_behind
    {level : Nat}
    {text : Text}
    {e : CExpr}
    (h : Spells level text e) :
    Spells level (text ++ [' ']) e := by
  rcases h with ⟨ts, hReads, hYields⟩
  have hBoth := hReads.append_apart reads_blank (by decide)
  rw [List.append_nil] at hBoth
  exact ⟨ts, hBoth, hYields⟩

/- A sign before an operand, with a blank between them. -/
theorem Spells.unary_blank
    {text : Text}
    {e : CExpr}
    (h : Spells unaryLevel text e)
    (op : CUnary) :
    Spells unaryLevel (op.symbol ++ ' ' :: text)
      (.unary op e) := by
  apply h.blank_before.unary op
  intro c hc
  cases hc
  have hReads : CToken.Reads op.symbol
      (CToken.ofText op.symbol) := by
    cases op <;> exact CToken.reads_fixed (by decide)
  exact hReads.endedBy (by decide)

end CExpr

------------------------------------------------------------
-- Texts of Tokens
------------------------------------------------------------

namespace Token

/- The C text of tokens, with blanks between them. -/
def textOf
    (ts : List Token) : Text :=
  Text.joinWith " " (ts.map render)

theorem textOf_singleton
    (t : Token) :
    textOf [t] = t.render := by
  simp [textOf, Text.joinWith, List.intercalate]

/- There is a blank between the texts of two parts. -/
theorem textOf_append
    {ts us : List Token}
    (hts : ts ≠ [])
    (hus : us ≠ []) :
    textOf (ts ++ us) = textOf ts ++ ' ' :: textOf us := by
  have hBlank : Text.ofString " " = [' '] := Text.ofString_ofList _
  induction ts with
  | nil => contradiction
  | cons t ts ih =>
      cases ts with
      | nil =>
          cases us with
          | nil => contradiction
          | cons u us =>
              simp [textOf, Text.joinWith, List.intercalate,
                hBlank]
      | cons s ts =>
          have hRest := ih (by simp)
          simp only [textOf, Text.joinWith, List.intercalate,
            hBlank, List.cons_append, List.map_cons,
            List.intersperse_cons_cons, List.flatten_cons] at hRest ⊢
          rw [hRest]
          simp

theorem textOf_cons
    (t : Token)
    {ts : List Token}
    (h : ts ≠ []) :
    textOf (t :: ts) = t.render ++ ' ' :: textOf ts := by
  have hAppend := textOf_append (List.cons_ne_nil t []) h
  rwa [textOf_singleton] at hAppend

end Token

------------------------------------------------------------
-- Reading in C
------------------------------------------------------------

namespace ArithTree

/-
  The level in C of an expression of a given level.  C has
  comparisons between the first two levels.
-/
def cLevel
    (level : Nat) : Nat :=
  if level = 0 then 0 else min (level + 2) unaryLevel

theorem cLevel_mono
    {m n : Nat}
    (h : m ≤ n) :
    cLevel m ≤ cLevel n := by
  unfold cLevel
  split <;> split <;> omega

/- Operators bind in C as they do here. -/
theorem cLevel_level
    (op : Operator) :
    (CBinary.arith op).level = cLevel op.level := by
  cases op <;> rfl

theorem succ_level_le
    (op : Operator) :
    (CBinary.arith op).level + 1 ≤ cLevel (op.level + 1) := by
  cases op <;> decide

/- The text of an expression is read as the same expression in C. -/
theorem Derives.spells
    {level : Nat}
    {ts : List Token}
    {e : ArithTree}
    (h : Derives level ts e)
    (hLegible : ∀ t ∈ ts, t.IsLegible) :
    Spells (cLevel level) (Token.textOf ts) e.toC := by
  induction h with
  | number numeral =>
      rw [Token.textOf_singleton]
      have hNumeral := hLegible _ List.mem_cons_self
      exact (spellsPrimary_number hNumeral.1 hNumeral.2).spells _
  | var name =>
      rw [Token.textOf_singleton]
      exact (IntExpr.ofString (.variable name)).spells_render
  | status =>
      rw [Token.textOf_singleton]
      exact IntExpr.status.spells_render
  | backgroundPid =>
      rw [Token.textOf_singleton]
      exact IntExpr.backgroundPid.spells_render
  | paren h ih =>
      rename_i ts e
      have hInside := ih fun t ht => hLegible t (by simp [ht])
      have hText : Token.textOf
          (.leftParen :: (ts ++ [.rightParen])) =
            '(' :: (' ' :: Token.textOf ts ++ [' '] ++ [')']) := by
        have hNonempty := h.ne_nil
        rw [Token.textOf_cons _ (by simp),
          Token.textOf_append hNonempty (by simp),
          Token.textOf_singleton]
        simp [Token.render, Text.ofString_eq]
      rw [hText]
      exact (hInside.blank_before.blank_behind.paren).spells _
  | minus h ih =>
      have hInside := ih fun t ht => hLegible t (by simp [ht])
      rw [Token.textOf_cons _ h.ne_nil]
      exact hInside.unary_blank .minus
  | plus h ih =>
      have hInside := ih fun t ht => hLegible t (by simp [ht])
      rw [Token.textOf_cons _ h.ne_nil]
      exact hInside.unary_blank .plus
  | binary op ha hb iha ihb =>
      rename_i ts us a b
      have hLeft := iha fun t ht => hLegible t (by simp [ht])
      have hRight := ihb fun t ht => hLegible t (by simp [ht])
      rw [← cLevel_level] at hLeft ⊢
      rw [Token.textOf_append ha.ne_nil (by simp),
        Token.textOf_cons _ hb.ne_nil]
      have hBoth := Spells.binary (.arith op) hLeft
        (hRight.mono (succ_level_le op))
      simpa [toC, CBinary.symbol, Token.render] using hBoth
  | lower hLevel h ih =>
      exact (ih hLegible).mono (cLevel_mono hLevel)

/- The text of an arithmetic expression, in parentheses, is read in C. -/
theorem Derives.ofText?_render
    {arith : ArithExpr}
    {e : ArithTree}
    (h : Derives 0 arith.tokens e)
    (hLegible : arith.IsLegible) :
    CExpr.ofText? arith.render = some e.toC := by
  have hText : arith.render =
      '(' :: (Token.textOf arith.tokens ++ [')']) := by
    simp [ArithExpr.render, Token.textOf, Text.ofString_eq]
  rw [hText]
  exact ((h.spells hLegible).paren.spells 0).ofText?_eq

end ArithTree

------------------------------------------------------------
-- Names
------------------------------------------------------------

namespace Token

/- What stands for a variable is a name. -/
def IsNamed : Token → Prop
  | .var name => Text.isName name = true
  | _ => True

/- A name is read to its end. -/
theorem isName_takeWhile
    {c : Char}
    (h : Text.isNameStart c = true)
    (rest : Text) :
    Text.isName (c :: rest.takeWhile Text.isNameChar) = true := by
  rw [Text.isName, h, Bool.true_and]
  exact List.all_takeWhile

theorem isNamed_of_readReference
    {text after : Text}
    {token : Token}
    (h : readReference text = .ok (some token, after)) :
    token.IsNamed := by
  unfold readReference at h
  split at h
  · simp only [readBraced] at h
    split at h
    · rename_i hName
      cases h
      exact hName
    · contradiction
  · cases h
    trivial
  · cases h
    trivial
  · split at h
    · rename_i hStart
      cases h
      cases text with
      | nil => contradiction
      | cons c rest =>
          have hc : Text.isNameStart c = true := by
            simpa using hStart
          rw [IsNamed, List.takeWhile_cons_of_pos
            (Text.isNameChar_of_isNameStart hc)]
          exact isName_takeWhile hc rest
    · contradiction

theorem isNamed_of_read
    {c : Char}
    {rest after : Text}
    {token : Token}
    (h : read c rest = .ok (some token, after)) :
    token.IsNamed := by
  cases token with
  | var name =>
      unfold read at h
      split at h
      · simp at h
      split at h
      · exact isNamed_of_readReference h
      split at h
      · rename_i hStart
        cases h
        exact isName_takeWhile hStart rest
      split at h
      · simp at h
      split at h
      · simp at h
      split at h
      · simp at h
      · unfold readOperator at h
        split at h
        · split at h <;> simp at h
        · simp at h
  | _ => trivial

end Token

namespace ArithTree

/- The variables of an expression. -/
def names : ArithTree → List Text
  | .number _ => []
  | .var name => [name]
  | .status => []
  | .backgroundPid => []
  | .minus e => e.names
  | .plus e => e.names
  | .binary _ left right => left.names ++ right.names

/- The variables of an expression stand among its tokens. -/
theorem Derives.var_mem
    {level : Nat}
    {ts : List Token}
    {e : ArithTree}
    (h : Derives level ts e)
    {name : Text}
    (hName : name ∈ e.names) :
    .var name ∈ ts := by
  induction h with
  | number numeral => simp [names] at hName
  | var other =>
      rw [names, List.mem_singleton] at hName
      rw [hName]
      exact List.mem_cons_self
  | status => simp [names] at hName
  | backgroundPid => simp [names] at hName
  | paren h ih => simp [ih hName]
  | minus h ih => exact List.mem_cons_of_mem _ (ih hName)
  | plus h ih => exact List.mem_cons_of_mem _ (ih hName)
  | binary op ha hb iha ihb =>
      rcases List.mem_append.mp hName with hName | hName
      · simp [iha hName]
      · simp [ihb hName]
  | lower hLevel h ih => exact ih hName

/- The variables of an expression that is read have names. -/
theorem Derives.isName_of_ofText
    {text : Text}
    {arith : ArithExpr}
    {e : ArithTree}
    (h : Derives 0 arith.tokens e)
    (hText : ArithExpr.ofText text = .ok arith) :
    ∀ name ∈ e.names, Text.isName name = true := by
  intro name hName
  exact Token.forall_of_ofText Token.isNamed_of_read
    (ArithExpr.ofText_tokens hText) _ (h.var_mem hName)

end ArithTree

end ShellToC
