import ShellToC.Code.Expr
import ShellToC.Proofs.CToken

/-
  This file reads C expressions: names, constants, calls,
  elements of arrays, signs before an operand and operators
  between two.

  The tokens are read from the left.  What waits for an
  operand is kept on a stack.  An operator takes the operand
  to its left from what waits there and binds at least as
  tightly, so operators of one level group to the left.

  Key definitions include:
    * `CExpr`
    * `CReader.settle`
    * `CReader.step`
    * `CExpr.ofText?`
    * `CExpr.Spells`

  Main declarations:
    * `CExpr.Spells.ofText?_eq`
    * `CExpr.Spells.binary`
    * `CExpr.Spells.unary`
    * `CExpr.Spells.paren`
    * `CExpr.Spells.call`
-/

namespace ShellToC

------------------------------------------------------------
-- Operators
------------------------------------------------------------

/- The signs that stand before an operand. -/
inductive CUnary where
  | not
  | minus
  | plus
  deriving DecidableEq, Repr

namespace CUnary

/- The text of a sign. -/
def symbol : CUnary → Text
  | .not => ['!']
  | .minus => ['-']
  | .plus => ['+']

/- The sign that a text stands for. -/
def ofSymbol?
    (symbol : Text) : Option CUnary :=
  [.not, .minus, .plus].find? fun op => op.symbol == symbol

@[simp] theorem ofSymbol?_symbol
    (op : CUnary) :
    ofSymbol? op.symbol = some op := by
  cases op <;> rfl

end CUnary

/- The operators that stand between two operands. -/
inductive CBinary where
  | arith (op : Operator)
  | compare (rel : Relation)
  deriving DecidableEq, Repr

namespace CBinary

/- The text of an operator. -/
def symbol : CBinary → Text
  | .arith op => [op.symbol]
  | .compare rel => rel.symbol

/- How tightly an operator binds. -/
def level : CBinary → Nat
  | .arith .caret => 0
  | .compare .eq => 1
  | .compare .ne => 1
  | .compare _ => 2
  | .arith .plus => 3
  | .arith .minus => 3
  | .arith _ => 4

/- The operators. -/
def all : List CBinary :=
  Operator.all.map .arith ++
    [.compare .eq, .compare .ne, .compare .gt, .compare .lt,
     .compare .ge, .compare .le]

/- The operator that a text stands for. -/
def ofSymbol?
    (symbol : Text) : Option CBinary :=
  all.find? fun op => op.symbol == symbol

@[simp] theorem ofSymbol?_symbol
    (op : CBinary) :
    ofSymbol? op.symbol = some op := by
  cases op with
  | arith op => cases op <;> decide +kernel
  | compare rel => cases rel <;> decide +kernel

/- No operator is a parenthesis, a bracket or a comma. -/
theorem symbol_ne_bracket
    (op : CBinary)
    {c : Char}
    (hc : c ∈ ['(', ')', '[', ']', ',']) :
    op.symbol ≠ [c] := by
  have hAll : ['(', ')', '[', ']', ','].all
      (fun c => op.symbol != [c]) = true := by
    cases op with
    | arith op => cases op <;> decide +kernel
    | compare rel => cases rel <;> decide +kernel
  exact bne_iff_ne.mp (List.all_eq_true.mp hAll c hc)

/- Between blanks, an operator is one token. -/
theorem reads_spaced
    (op : CBinary) :
    CToken.Reads (' ' :: op.symbol ++ [' '])
        [.sign op.symbol] ∧
      (Scanner.idle.scan (' ' :: op.symbol ++ [' '])).1 =
        .idle := by
  refine ⟨CToken.reads_fixed ?_, ?_⟩
  · cases op with
    | arith op => cases op <;> decide +kernel
    | compare rel => cases rel <;> decide +kernel
  · cases op with
    | arith op => cases op <;> decide +kernel
    | compare rel => cases rel <;> decide +kernel

end CBinary

------------------------------------------------------------
-- Expressions
------------------------------------------------------------

/- An expression of C, of the kinds that tests and arithmetic need. -/
inductive CExpr where
  | word (w : Text)
  | number (w : Text)
  | literal (quote : Char) (inside : Text)
  | unary (op : CUnary) (e : CExpr)
  | binary (op : CBinary) (left right : CExpr)
  | index (array position : CExpr)
  | call (function : Text) (arg : CExpr)
  | callTwo (function : Text) (first second : CExpr)
  deriving DecidableEq, Repr

/- What waits for an operand to its right. -/
inductive CPending where
  | unary (op : CUnary)
  | binary (left : CExpr) (op : CBinary)
  | paren
  | index (array : CExpr)
  | call (function : Text)
  | callTwo (function : Text) (first : CExpr)
  deriving DecidableEq, Repr

/- What the tokens read so far leave open, innermost first. -/
inductive CReader where
  /- An operand is due. -/
  | wants (stack : List CPending)
  /- An operand is there, and may yet go on. -/
  | has (stack : List CPending) (e : CExpr)
  deriving DecidableEq, Repr

namespace CReader

------------------------------------------------------------
-- Reading
------------------------------------------------------------

/- Hand an operand to what binds at least as tightly as the level. -/
def settle
    (level : Nat) : List CPending → CExpr → List CPending × CExpr
  | .unary op :: stack, e => settle level stack (.unary op e)
  | .binary left op :: stack, e =>
      if level ≤ op.level then
        settle level stack (.binary op left e)
      else
        (.binary left op :: stack, e)
  | stack, e => (stack, e)

/- Close a parenthesis behind an operand. -/
def closeParen : List CPending × CExpr → Option CReader
  | (.paren :: stack, e) => some (.has stack e)
  | (.call function :: stack, e) =>
      some (.has stack (.call function e))
  | (.callTwo function first :: stack, e) =>
      some (.has stack (.callTwo function first e))
  | _ => none

/- Close a bracket behind an operand. -/
def closeBracket : List CPending × CExpr → Option CReader
  | (.index array :: stack, e) =>
      some (.has stack (.index array e))
  | _ => none

/- Go on to the second argument of a call. -/
def nextArg : List CPending × CExpr → Option CReader
  | (.call function :: stack, e) =>
      some (.wants (.callTwo function e :: stack))
  | _ => none

/- Open the arguments of a call behind the name of a function. -/
def openCall
    (stack : List CPending) : CExpr → Option CReader
  | .word function => some (.wants (.call function :: stack))
  | _ => none

/- Read a sign behind an operand. -/
def stepSign
    (stack : List CPending)
    (e : CExpr)
    (symbol : Text) : Option CReader :=
  if symbol = ['('] then
    openCall stack e
  else if symbol = ['['] then
    some (.wants (.index e :: stack))
  else if symbol = [')'] then
    closeParen (settle 0 stack e)
  else if symbol = [']'] then
    closeBracket (settle 0 stack e)
  else if symbol = [','] then
    nextArg (settle 0 stack e)
  else
    (CBinary.ofSymbol? symbol).map fun op =>
      .wants (.binary (settle op.level stack e).2 op ::
        (settle op.level stack e).1)

/- Read a token. -/
def step : CReader → CToken → Option CReader
  | .wants stack, .word w => some (.has stack (.word w))
  | .wants stack, .number w => some (.has stack (.number w))
  | .wants stack, .literal quote inside =>
      some (.has stack (.literal quote inside))
  | .wants stack, .sign symbol =>
      if symbol = ['('] then
        some (.wants (.paren :: stack))
      else
        (CUnary.ofSymbol? symbol).map fun op =>
          .wants (.unary op :: stack)
  | .has stack e, .sign symbol => stepSign stack e symbol
  | .has _ _, _ => none

/- Read tokens one after the other. -/
def run : CReader → List CToken → Option CReader
  | r, [] => some r
  | r, t :: ts => (r.step t).bind (run · ts)

/- The expression that is complete when the tokens end. -/
def finish : CReader → Option CExpr
  | .wants _ => none
  | .has stack e =>
      match settle 0 stack e with
      | ([], e) => some e
      | _ => none

theorem run_append
    (r : CReader)
    (a b : List CToken) :
    r.run (a ++ b) = (r.run a).bind (run · b) := by
  induction a generalizing r with
  | nil => rfl
  | cons t a ih =>
      rw [List.cons_append, run, run, Option.bind_assoc]
      congr 1
      funext s
      exact ih s

end CReader

namespace CExpr

open CReader

/- The expression that tokens make up. -/
def ofTokens?
    (ts : List CToken) : Option CExpr :=
  (run (.wants []) ts).bind finish

/- The expression that a text is read as. -/
def ofText?
    (text : Text) : Option CExpr :=
  ofTokens? (CToken.ofText text)

------------------------------------------------------------
-- Levels
------------------------------------------------------------

/- The level of what starts with a sign, above those of all operators. -/
def unaryLevel : Nat := 5

theorem level_lt_unaryLevel
    (op : CBinary) :
    op.level < unaryLevel := by
  cases op with
  | arith op => cases op <;> decide
  | compare rel => cases rel <;> decide

/- What waits does not take a part of an operand of the level. -/
def Keeps
    (level : Nat) : List CPending → Prop
  | .unary _ :: _ => unaryLevel ≤ level
  | .binary _ op :: _ => op.level < level
  | _ => True

/- Nothing that waits takes an operand before its operator is read. -/
theorem Keeps.settle_eq
    {level : Nat}
    {stack : List CPending}
    (h : Keeps level stack)
    (hLevel : level < unaryLevel)
    (e : CExpr) :
    settle level stack e = (stack, e) := by
  cases stack with
  | nil => rfl
  | cons pending stack =>
      cases pending with
      | unary op =>
          simp only [Keeps] at h
          omega
      | binary left op =>
          simp only [Keeps] at h
          have hNot : ¬ level ≤ op.level := by omega
          rw [settle, if_neg hNot]
      | paren => rfl
      | index array => rfl
      | call function => rfl
      | callTwo function first => rfl

theorem Keeps.mono
    {m n : Nat}
    {stack : List CPending}
    (h : Keeps m stack)
    (hLevel : m ≤ n) :
    Keeps n stack := by
  cases stack with
  | nil => trivial
  | cons pending stack =>
      cases pending with
      | unary op =>
          simp only [Keeps] at h ⊢
          omega
      | binary left op =>
          simp only [Keeps] at h ⊢
          omega
      | paren => trivial
      | index array => trivial
      | call function => trivial
      | callTwo function first => trivial

/- Above the operators, nothing takes a part of an operand. -/
theorem keeps_unaryLevel
    (stack : List CPending) :
    Keeps unaryLevel stack := by
  cases stack with
  | nil => trivial
  | cons pending stack =>
      cases pending with
      | unary op => exact Nat.le_refl _
      | binary left op => exact level_lt_unaryLevel op
      | paren => trivial
      | index array => trivial
      | call function => trivial
      | callTwo function first => trivial

------------------------------------------------------------
-- Tokens of Expressions
------------------------------------------------------------

/- The tokens are read as this operand, whatever waits. -/
def IsPrimary
    (ts : List CToken)
    (e : CExpr) : Prop :=
  ∀ stack, run (.wants stack) ts = some (.has stack e)

/-
  The tokens are read as this operand by what keeps operands
  of the level.  Parts of it may still wait when its last
  token is read, but what waits is handed the operand as a
  whole by any operator of the level or below.
-/
def Yields
    (level : Nat)
    (ts : List CToken)
    (e : CExpr) : Prop :=
  ∀ stack, Keeps level stack →
    ∃ stack' e',
      run (.wants stack) ts = some (.has stack' e') ∧
      ∀ n ≤ level, settle n stack' e' = settle n stack e

theorem IsPrimary.yields
    {ts : List CToken}
    {e : CExpr}
    (h : IsPrimary ts e)
    (level : Nat) :
    Yields level ts e := by
  intro stack _
  exact ⟨stack, e, h stack, fun _ _ => rfl⟩

theorem Yields.mono
    {m n : Nat}
    {ts : List CToken}
    {e : CExpr}
    (h : Yields n ts e)
    (hLevel : m ≤ n) :
    Yields m ts e := by
  intro stack hKeeps
  rcases h stack (hKeeps.mono hLevel) with
    ⟨stack', e', hRun, hSettle⟩
  refine ⟨stack', e', hRun, ?_⟩
  intro k hk
  exact hSettle k (by omega)

/- The end of the tokens completes an operand. -/
theorem Yields.ofTokens?_eq
    {level : Nat}
    {ts : List CToken}
    {e : CExpr}
    (h : Yields level ts e) :
    ofTokens? ts = some e := by
  rcases h [] trivial with ⟨stack', e', hRun, hSettle⟩
  have hWhole : settle 0 stack' e' = ([], e) :=
    hSettle 0 (Nat.zero_le _)
  rw [ofTokens?, hRun]
  simp [finish, hWhole]

/- Behind an operand, a closing sign finds the operand as a whole. -/
theorem Yields.run_closing
    {ts : List CToken}
    {e : CExpr}
    (h : Yields 0 ts e)
    {stack : List CPending}
    (hKeeps : Keeps 0 stack)
    (symbol : Text) :
    ∃ stack' e',
      run (.wants stack) (ts ++ [.sign symbol]) =
        stepSign stack' e' symbol ∧
      settle 0 stack' e' = (stack, e) := by
  rcases h stack hKeeps with ⟨stack', e', hRun, hSettle⟩
  refine ⟨stack', e', ?_, ?_⟩
  · rw [run_append, hRun]
    cases hStep : stepSign stack' e' symbol <;>
      simp [run, step, hStep]
  · rw [hSettle 0 (Nat.le_refl _)]
    exact hKeeps.settle_eq (by decide) e

/- An operand in parentheses is one whatever waits. -/
theorem Yields.paren
    {ts : List CToken}
    {e : CExpr}
    (h : Yields 0 ts e) :
    IsPrimary (.sign ['('] :: (ts ++ [.sign [')']])) e := by
  intro stack
  have hKeeps : Keeps 0 (.paren :: stack) := trivial
  rcases h.run_closing hKeeps [')'] with
    ⟨stack', e', hRun, hSettle⟩
  change run (.wants (.paren :: stack)) _ = _
  rw [hRun]
  simp [stepSign, hSettle, closeParen]

/- A call with one argument. -/
theorem Yields.call
    {ts : List CToken}
    {e : CExpr}
    (h : Yields 0 ts e)
    (function : Text) :
    IsPrimary
      (.word function :: .sign ['('] ::
        (ts ++ [.sign [')']]))
      (.call function e) := by
  intro stack
  have hKeeps : Keeps 0 (.call function :: stack) := trivial
  rcases h.run_closing hKeeps [')'] with
    ⟨stack', e', hRun, hSettle⟩
  change run (.wants (.call function :: stack)) _ = _
  rw [hRun]
  simp [stepSign, hSettle, closeParen]

/- A call with two arguments. -/
theorem Yields.callTwo
    {ta tb : List CToken}
    {a b : CExpr}
    (ha : Yields 0 ta a)
    (hb : Yields 0 tb b)
    (function : Text) :
    IsPrimary
      (.word function :: .sign ['('] ::
        (ta ++ [.sign [',']] ++ (tb ++ [.sign [')']])))
      (.callTwo function a b) := by
  intro stack
  have hFirst : Keeps 0 (.call function :: stack) := trivial
  have hSecond : Keeps 0 (.callTwo function a :: stack) :=
    trivial
  rcases ha.run_closing hFirst [','] with
    ⟨stackA, a', hRunA, hSettleA⟩
  rcases hb.run_closing hSecond [')'] with
    ⟨stackB, b', hRunB, hSettleB⟩
  change run (.wants (.call function :: stack)) _ = _
  have hComma : stepSign stackA a' [','] =
      some (.wants (.callTwo function a :: stack)) := by
    simp [stepSign, hSettleA, nextArg]
  rw [run_append, hRunA, hComma, Option.bind_some, hRunB]
  simp [stepSign, hSettleB, closeParen]

/- An element of an array. -/
theorem IsPrimary.index
    {ta ti : List CToken}
    {a i : CExpr}
    (ha : IsPrimary ta a)
    (hi : Yields 0 ti i) :
    IsPrimary
      (ta ++ .sign ['['] :: (ti ++ [.sign [']']]))
      (.index a i) := by
  intro stack
  have hKeeps : Keeps 0 (.index a :: stack) := trivial
  rcases hi.run_closing hKeeps [']'] with
    ⟨stack', e', hRun, hSettle⟩
  rw [run_append, ha stack, Option.bind_some]
  change run (.wants (.index a :: stack)) _ = _
  rw [hRun]
  simp [stepSign, hSettle, closeBracket]

/- A sign before an operand. -/
theorem Yields.unary
    {ts : List CToken}
    {e : CExpr}
    (h : Yields unaryLevel ts e)
    (op : CUnary) :
    Yields unaryLevel (.sign op.symbol :: ts)
      (.unary op e) := by
  intro stack _
  rcases h (.unary op :: stack) (keeps_unaryLevel _) with
    ⟨stack', e', hRun, hSettle⟩
  have hStep : step (.wants stack) (.sign op.symbol) =
      some (.wants (.unary op :: stack)) := by
    have hParen : op.symbol ≠ ['('] := by
      cases op <;> decide
    simp [step, hParen]
  refine ⟨stack', e', ?_, ?_⟩
  · rw [run, hStep]
    exact hRun
  · intro n hn
    rw [hSettle n hn, settle]

/-
  An operator between two operands.  The left operand may
  have operators of the same level, the right one may not.
-/
theorem Yields.binary
    {ta tb : List CToken}
    {a b : CExpr}
    (op : CBinary)
    (ha : Yields op.level ta a)
    (hb : Yields (op.level + 1) tb b) :
    Yields op.level (ta ++ .sign op.symbol :: tb)
      (.binary op a b) := by
  intro stack hKeeps
  have hLevel := level_lt_unaryLevel op
  rcases ha stack hKeeps with ⟨stackA, a', hRunA, hSettleA⟩
  have hLeft : settle op.level stackA a' = (stack, a) := by
    rw [hSettleA _ (Nat.le_refl _)]
    exact hKeeps.settle_eq hLevel a
  have hStep : step (.has stackA a') (.sign op.symbol) =
      some (.wants (.binary a op :: stack)) := by
    have hBracket := fun c => op.symbol_ne_bracket (c := c)
    simp only [step, stepSign]
    rw [if_neg (hBracket '(' (by decide)),
      if_neg (hBracket '[' (by decide)),
      if_neg (hBracket ')' (by decide)),
      if_neg (hBracket ']' (by decide)),
      if_neg (hBracket ',' (by decide)),
      CBinary.ofSymbol?_symbol, Option.map_some, hLeft]
  have hRight : Keeps (op.level + 1) (.binary a op :: stack) :=
    Nat.lt_succ_self _
  rcases hb _ hRight with ⟨stackB, b', hRunB, hSettleB⟩
  refine ⟨stackB, b', ?_, ?_⟩
  · rw [run_append, hRunA, Option.bind_some, run, hStep]
    exact hRunB
  · intro n hn
    rw [hSettleB n (by omega), settle, if_pos hn]

------------------------------------------------------------
-- Texts of Expressions
------------------------------------------------------------

/- The text is read as an operand of the level. -/
def Spells
    (level : Nat)
    (text : Text)
    (e : CExpr) : Prop :=
  ∃ ts, CToken.Reads text ts ∧ Yields level ts e

/- The text is read as an operand that nothing takes a part of. -/
def SpellsPrimary
    (text : Text)
    (e : CExpr) : Prop :=
  ∃ ts, CToken.Reads text ts ∧ IsPrimary ts e

theorem SpellsPrimary.spells
    {text : Text}
    {e : CExpr}
    (h : SpellsPrimary text e)
    (level : Nat) :
    Spells level text e := by
  rcases h with ⟨ts, hReads, hPrimary⟩
  exact ⟨ts, hReads, hPrimary.yields level⟩

theorem Spells.mono
    {m n : Nat}
    {text : Text}
    {e : CExpr}
    (h : Spells n text e)
    (hLevel : m ≤ n) :
    Spells m text e := by
  rcases h with ⟨ts, hReads, hYields⟩
  exact ⟨ts, hReads, hYields.mono hLevel⟩

theorem Spells.ofText?_eq
    {level : Nat}
    {text : Text}
    {e : CExpr}
    (h : Spells level text e) :
    ofText? text = some e := by
  rcases h with ⟨ts, hReads, hYields⟩
  rw [ofText?, hReads.ofText_eq]
  exact hYields.ofTokens?_eq

theorem spellsPrimary_name
    {name : Text}
    (h : Text.isName name = true) :
    SpellsPrimary name (.word name) :=
  ⟨_, CToken.reads_name h, fun _ => rfl⟩

theorem spellsPrimary_number
    {numeral : Text}
    (hHead : numeral.head?.any Char.isDigit = true)
    (hAll : numeral.all Text.isNameChar = true) :
    SpellsPrimary numeral (.number numeral) :=
  ⟨_, CToken.reads_number hHead hAll, fun _ => rfl⟩

theorem spellsPrimary_quote
    (text : Text) :
    SpellsPrimary (Literal.quote text)
      (.literal '\x22' (Literal.escapeFrom false text)) :=
  ⟨_, CToken.reads_quote text, fun _ => rfl⟩

/- Text behind an opening parenthesis, up to a closing one. -/
theorem reads_enclosed
    {text : Text}
    {ts : List CToken}
    (h : CToken.Reads text ts) :
    CToken.Reads ('(' :: (text ++ [')']))
      (.sign ['('] :: (ts ++ [.sign [')']])) := by
  have hOpen : CToken.Reads ['('] [.sign ['(']] :=
    CToken.reads_fixed (by decide)
  have hClose : CToken.Reads [')'] [.sign [')']] :=
    CToken.reads_fixed (by decide)
  exact hOpen.append_closed
    (h.append_apart hClose (by decide)) (by decide)

theorem Spells.paren
    {text : Text}
    {e : CExpr}
    (h : Spells 0 text e) :
    SpellsPrimary ('(' :: (text ++ [')'])) e := by
  rcases h with ⟨ts, hReads, hYields⟩
  exact ⟨_, reads_enclosed hReads, hYields.paren⟩

/- The text of a call is a name and a text in parentheses. -/
theorem callText_eq
    (function arguments : Text) :
    callText function arguments =
      function ++ '(' :: (arguments ++ [')']) := by
  simp [callText, Text.ofString_eq]

theorem Spells.call
    {function text : Text}
    {e : CExpr}
    (h : Spells 0 text e)
    (hName : Text.isName function = true) :
    SpellsPrimary (callText function text)
      (.call function e) := by
  rcases h with ⟨ts, hReads, hYields⟩
  rw [callText_eq]
  exact ⟨_, (CToken.reads_name hName).append_apart
    (reads_enclosed hReads) rfl, hYields.call function⟩

theorem Spells.callTwo
    {function a b : Text}
    {x y : CExpr}
    (ha : Spells 0 a x)
    (hb : Spells 0 b y)
    (hName : Text.isName function = true) :
    SpellsPrimary (callText function (a ++ ", " ++ b))
      (.callTwo function x y) := by
  rcases ha with ⟨ta, hReadsA, hYieldsA⟩
  rcases hb with ⟨tb, hReadsB, hYieldsB⟩
  have hComma : CToken.Reads [',', ' '] [.sign [',']] :=
    CToken.reads_fixed (by decide)
  have hRest := hComma.append_closed hReadsB (by decide)
  have hArgs := hReadsA.append_apart hRest rfl
  have hText : a ++ ", " ++ b = a ++ ([',', ' '] ++ b) := by
    simp [Text.ofString_eq]
  rw [callText_eq, hText]
  refine ⟨_, (CToken.reads_name hName).append_apart
    (reads_enclosed hArgs) rfl, ?_⟩
  simpa using hYieldsA.callTwo hYieldsB function

theorem SpellsPrimary.index
    {a i : Text}
    {x y : CExpr}
    (ha : SpellsPrimary a x)
    (hi : Spells 0 i y) :
    SpellsPrimary (a ++ '[' :: (i ++ [']'])) (.index x y) := by
  rcases ha with ⟨ta, hReadsA, hPrimary⟩
  rcases hi with ⟨ti, hReadsI, hYields⟩
  have hOpen : CToken.Reads ['['] [.sign ['[']] :=
    CToken.reads_fixed (by decide)
  have hClose : CToken.Reads [']'] [.sign [']']] :=
    CToken.reads_fixed (by decide)
  have hInside := hOpen.append_closed
    (hReadsI.append_apart hClose (by decide)) (by decide)
  exact ⟨_, hReadsA.append_apart hInside rfl,
    hPrimary.index hYields⟩

/- An operator with blanks around it. -/
theorem Spells.binary
    {a b : Text}
    {x y : CExpr}
    (op : CBinary)
    (ha : Spells op.level a x)
    (hb : Spells (op.level + 1) b y) :
    Spells op.level (a ++ (' ' :: op.symbol ++ [' '] ++ b))
      (.binary op x y) := by
  rcases ha with ⟨ta, hReadsA, hYieldsA⟩
  rcases hb with ⟨tb, hReadsB, hYieldsB⟩
  have hMiddle := op.reads_spaced
  have hRest := hMiddle.1.append_closed hReadsB hMiddle.2
  exact ⟨_, hReadsA.append_apart hRest rfl,
    Yields.binary op hYieldsA hYieldsB⟩

/-
  A sign right before an operand, or with a blank between
  them.  What follows must not make a longer sign of it.
-/
theorem Spells.unary
    {text : Text}
    {e : CExpr}
    (h : Spells unaryLevel text e)
    (op : CUnary)
    (hSeam : ∀ c ∈ text.head?, CToken.EndedBy op.symbol c) :
    Spells unaryLevel (op.symbol ++ text) (.unary op e) := by
  rcases h with ⟨ts, hReads, hYields⟩
  have hSign : CToken.Reads op.symbol [.sign op.symbol] :=
    CToken.reads_fixed (by cases op <;> decide)
  exact ⟨_, hSign.append hReads hSeam, hYields.unary op⟩

end CExpr

end ShellToC
