import ShellToC.Script.Mark

/-
  This file defines statements: how a script is cut into
  them, and the line on which each one starts.

  A bare line feed or semicolon separates statements, an
  ampersand ends one and stays with it, a comment is a
  statement of its own, and a backslash before a line feed
  joins two lines.  A block keyword that leads a statement
  becomes a statement of its own.

  Key definitions include:
    * `Statement`
    * `Piece`
    * `Piece.ofMarks`
    * `Statement.isolate`
    * `Statement.ofScript`
-/

namespace ShellToC

------------------------------------------------------------
-- Statements
------------------------------------------------------------

/- The text of a statement and the line on which it starts. -/
structure Statement where
  text : Text
  line : Nat
  deriving DecidableEq, Repr

------------------------------------------------------------
-- Pieces
------------------------------------------------------------

/- A place between statements, or a character and its line. -/
inductive Piece where
  | cut
  | char (c : Char) (line : Nat)
  deriving DecidableEq, Repr

namespace Piece

/- Whether the piece is a place between statements. -/
def isCut : Piece → Bool
  | .cut => true
  | .char _ _ => false

/- The character of a piece. -/
def char? : Piece → Option Char
  | .cut => none
  | .char c _ => some c

/- The line of a piece that is not blank. -/
def inkedLine? : Piece → Option Nat
  | .cut => none
  | .char c line =>
      if Text.isBlank c then none else some line

/-
  Whether an ampersand between these characters ends its
  statement, that is, whether it is not part of `&&`, `>&`,
  `<&` or `&>`.
-/
def endsStatement
    (before after : Option Char) : Bool :=
  !(before == some '&' || before == some '>' ||
      before == some '<') &&
    !(after == some '&' || after == some '>')

/- What a mark that is not an escape leaves of itself. -/
def ofMark
    (before after : Option Char)
    (line : Nat)
    (m : Mark) : List Piece :=
  if m.isBareChar '\n' || m.isBareChar ';' then
    [.cut]
  else if m.isBareChar '&' && endsStatement before after then
    [.char m.ch line, .cut]
  else
    [.char m.ch line]

/-
  The pieces of a script.  `inComment` and `before` tell of
  the mark to the left, and `line` is the line reached.
  Outside of comments a backslash takes the next character
  with it: a line feed vanishes together with it, and any
  other character is kept as it is.
-/
def ofMarks
    (inComment : Bool)
    (before : Option Char)
    (line : Nat) : List Mark → List Piece
  | [] => []
  | m :: rest =>
      (if m.isComment = inComment then [] else [.cut]) ++
        if m.ch = '\x5c' ∧ !m.isComment then
          match rest with
          | [] => [.char m.ch line]
          | n :: rest =>
              if n.ch = '\n' then
                ofMarks m.isComment n.ch (line + 1) rest
              else
                .char m.ch line :: .char n.ch line ::
                  ofMarks m.isComment n.ch line rest
        else
          ofMark before (rest.head?.map Mark.ch) line m ++
            ofMarks m.isComment m.ch
              (if m.ch = '\n' then line + 1 else line) rest

end Piece

namespace Statement

------------------------------------------------------------
-- Leading Keywords
------------------------------------------------------------

/- The block keywords that become statements of their own. -/
def isolatedKeywords : List Text :=
  ["then", "else", "done", "do", "fi"]

/- The rest of a text that starts with a keyword and a blank. -/
def afterKeyword?
    (keyword text : Text) : Option Text :=
  (Text.dropLead? keyword text).filter fun tail =>
    tail.head?.any Text.isBlank

/- The leading keyword of a text and what follows its blanks. -/
def leadingKeyword?
    (text : Text) : Option (Text × Text) :=
  isolatedKeywords.findSome? fun keyword =>
    (afterKeyword? keyword text).map fun tail =>
      (keyword, Text.trimStart tail)

/- A keyword is cut off, so the rest is shorter. -/
theorem length_leadingKeyword?
    {text keyword rest : Text}
    (h : leadingKeyword? text = some (keyword, rest)) :
    rest.length < text.length := by
  obtain ⟨k, hk, hrest⟩ := List.exists_of_findSome?_eq_some h
  obtain ⟨tail, htail, heq⟩ := Option.map_eq_some_iff.1 hrest
  have hdrop := Text.length_dropLead? (Option.filter_eq_some_iff.1 htail).1
  have hpos : 0 < k.length := by
    simp only [isolatedKeywords, List.mem_cons, List.not_mem_nil,
      or_false] at hk
    rcases hk with rfl | rfl | rfl | rfl | rfl <;>
      simp [Text.ofString_eq]
  have htrim := Text.length_dropWhile_le Text.isBlank tail
  have : rest = Text.trimStart tail := by
    simpa using (Prod.mk.inj heq).2.symm
  subst this
  unfold Text.trimStart
  omega

/- Cut the leading keywords off a trimmed text, one by one. -/
def isolate
    (text : Text) : List Text :=
  if text.isEmpty then
    []
  else
    match _h : leadingKeyword? text with
    | some (keyword, rest) => keyword :: isolate rest
    | none => [text]
  termination_by text.length
  decreasing_by exact length_leadingKeyword? _h

------------------------------------------------------------
-- Cutting a Script into Statements
------------------------------------------------------------

/- The statements between two cuts. -/
def ofPieces
    (pieces : List Piece) : List Statement :=
  (isolate (Text.trim (pieces.filterMap Piece.char?))).map
    fun text =>
      ⟨text, (pieces.findSome? Piece.inkedLine?).getD 1⟩

/- The statements of a script in order. -/
def ofScript
    (script : Text) : List Statement :=
  ((Piece.ofMarks false none 1 (Mark.scan script)).splitOnP
    Piece.isCut).flatMap ofPieces

end Statement

end ShellToC
