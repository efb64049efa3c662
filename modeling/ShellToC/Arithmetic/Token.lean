import ShellToC.Fault

/-
  This file defines the tokens of arithmetic expressions and
  reads them.

  Names, numerals, six operators and parentheses are tokens.
  Whether they make up an expression is not decided here.

  Key definitions include:
    * `Operator`
    * `Token`
    * `Token.read`
    * `Token.ofText`
-/

namespace ShellToC

------------------------------------------------------------
-- Operators
------------------------------------------------------------

/- The operators that C shares. -/
inductive Operator where
  | plus
  | minus
  | times
  | slash
  | percent
  | caret
  deriving DecidableEq, Repr

namespace Operator

/- The character that stands for an operator. -/
def symbol : Operator → Char
  | .plus => '+'
  | .minus => '-'
  | .times => '*'
  | .slash => '/'
  | .percent => '%'
  | .caret => '^'

/- The operators. -/
def all : List Operator :=
  [.plus, .minus, .times, .slash, .percent, .caret]

/- The operator that a character stands for. -/
def ofChar?
    (c : Char) : Option Operator :=
  all.find? (·.symbol == c)

end Operator

------------------------------------------------------------
-- Tokens
------------------------------------------------------------

/- A token of an arithmetic expression. -/
inductive Token where
  | var (name : Text)
  | status
  | backgroundPid
  | number (numeral : Text)
  | operator (op : Operator)
  | leftParen
  | rightParen
  deriving DecidableEq, Repr

namespace Token

/- Characters that end a run of unknown operator characters. -/
def endsOperator
    (c : Char) : Bool :=
  Text.isBlank c || Text.isNameChar c ||
    c == '$' || c == '(' || c == ')'

------------------------------------------------------------
-- Reading Tokens
------------------------------------------------------------

/- What one step of reading finds: a token or a blank, and the rest. -/
abbrev Reading :=
  Except Fault (Option Token × Text)

/- Read the name in braces behind a dollar sign. -/
def readBraced
    (text : Text) : Reading :=
  let name := text.takeWhile (· != '\x7d')
  if Text.isName name then
    .ok (some (.var name), (text.dropWhile (· != '\x7d')).tail)
  else
    .error (.construct
      ("$\x7b" ++ name ++ "\x7d in arithmetic"))

/- Read what follows a dollar sign. -/
def readReference : Text → Reading
  | '\x7b' :: rest => readBraced rest
  | '?' :: rest => .ok (some .status, rest)
  | '!' :: rest => .ok (some .backgroundPid, rest)
  | text =>
      if text.head?.any Text.isNameStart then
        .ok (some (.var (text.takeWhile Text.isNameChar)),
          text.dropWhile Text.isNameChar)
      else
        .error (.operator "$")

/- Read an operator that starts with the given character. -/
def readOperator
    (c : Char)
    (rest : Text) : Reading :=
  match Operator.ofChar? c with
  | some op =>
      if c = '*' ∧ rest.head? = some '*' then
        .error (.operator "**")
      else
        .ok (some (.operator op), rest)
  | none =>
      .error (.operator
        ((c :: rest).takeWhile (!endsOperator ·)))

/- Read one token or one blank. -/
def read
    (c : Char)
    (rest : Text) : Reading :=
  if Text.isBlank c then
    .ok (none, rest)
  else if c = '$' then
    readReference rest
  else if Text.isNameStart c then
    .ok (some (.var (c :: rest.takeWhile Text.isNameChar)),
      rest.dropWhile Text.isNameChar)
  else if c.isDigit then
    .ok (some (.number (c :: rest.takeWhile Text.isNameChar)),
      rest.dropWhile Text.isNameChar)
  else if c = '(' then
    .ok (some .leftParen, rest)
  else if c = ')' then
    .ok (some .rightParen, rest)
  else
    readOperator c rest

/- What follows a reference stands at the end of the text. -/
theorem suffix_of_readReference
    {text after : Text}
    {token : Option Token}
    (h : readReference text = .ok (token, after)) :
    after <:+ text := by
  unfold readReference at h
  split at h
  · rename_i rest
    simp only [readBraced] at h
    split at h
    · cases h
      exact (List.tail_suffix _).trans
        ((List.dropWhile_suffix _).trans (List.suffix_cons _ rest))
    · contradiction
  · cases h
    exact List.suffix_cons _ _
  · cases h
    exact List.suffix_cons _ _
  · split at h
    · cases h
      exact List.dropWhile_suffix _
    · contradiction

/- Reading consumes the first character, and goes on in order. -/
theorem suffix_of_read
    {c : Char}
    {rest after : Text}
    {token : Option Token}
    (h : read c rest = .ok (token, after)) :
    after <:+ rest := by
  unfold read at h
  split at h
  · cases h
    exact List.suffix_refl _
  split at h
  · exact suffix_of_readReference h
  split at h
  · cases h
    exact List.dropWhile_suffix _
  split at h
  · cases h
    exact List.dropWhile_suffix _
  split at h
  · cases h
    exact List.suffix_refl _
  split at h
  · cases h
    exact List.suffix_refl _
  · unfold readOperator at h
    split at h
    · split at h
      · contradiction
      · cases h
        exact List.suffix_refl _
    · contradiction

/- The tokens of an arithmetic expression, or the first fault. -/
def ofText : Text → Except Fault (List Token)
  | [] => .ok []
  | c :: rest =>
      match _h : read c rest with
      | .error fault => .error fault
      | .ok (token, after) =>
          (ofText after).map (token.toList ++ ·)
  termination_by text => text.length
  decreasing_by
    have := (suffix_of_read _h).length_le
    simp only [List.length_cons]
    omega

end Token

end ShellToC
