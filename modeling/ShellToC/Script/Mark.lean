import ShellToC.Text.Basic

/-
  This file defines marks: the characters of a script with
  the part that quoting gives them.

  A character is bare outside of all quotes, escapes and
  substitutions, it belongs to a comment, or it is quoted.
  One pass from the left decides this, and each decision
  looks at most one character ahead.

  Key definitions include:
    * `Role`
    * `Mark`
    * `Quoting`
    * `Quoting.step`
    * `Mark.scan`
-/

namespace ShellToC

------------------------------------------------------------
-- Marks
------------------------------------------------------------

/- The part that quoting gives to a character. -/
inductive Role where
  | bare
  | quoted
  | comment
  deriving DecidableEq, Repr

/-
  A character with its role and with the number of bytes
  that stand before it in UTF-8.
-/
structure Mark where
  pos : Nat
  ch : Char
  role : Role
  deriving DecidableEq, Repr

namespace Mark

/- Whether the character is bare. -/
def isBare
    (m : Mark) : Bool :=
  m.role == .bare

/- Whether the character belongs to a comment. -/
def isComment
    (m : Mark) : Bool :=
  m.role == .comment

/- Whether the mark is this character, and bare. -/
def isBareChar
    (c : Char)
    (m : Mark) : Bool :=
  m.isBare && m.ch == c

/- Whether the mark is a bare blank. -/
def isBareBlank
    (m : Mark) : Bool :=
  m.isBare && Text.isBlank m.ch

/- The characters of the marks. -/
def chars
    (marks : List Mark) : Text :=
  marks.map Mark.ch

end Mark

------------------------------------------------------------
-- Quoting State
------------------------------------------------------------

/- What the character just read has already decided about the next one. -/
inductive Pending where
  /- Nothing. -/
  | nothing
  /- It is quoted, whatever it is. -/
  | quotedNext
  /- It belongs to the comment unless it is a line feed. -/
  | commentNext
  deriving DecidableEq, Repr

/-
  The quoting state between two characters: the open
  quotes, the nesting of substitutions, and whether a
  comment could start here.
-/
structure Quoting where
  single : Bool := false
  double : Bool := false
  tick : Bool := false
  depth : Nat := 0
  wordStart : Bool := true
  pending : Pending := .nothing
  deriving DecidableEq, Repr

namespace Quoting

/- The state in which every text starts. -/
def start : Quoting :=
  {}

/- No quote and no substitution is open. -/
def isNeutral
    (q : Quoting) : Bool :=
  !q.single && !q.double && !q.tick && q.depth == 0

/- A word, and so a comment, may start after these bare characters. -/
def endsWord
    (c : Char) : Bool :=
  Text.isBlank c || c == ';' || c == '&' || c == '|' || c == '('

/-
  Read an unquoted character: the quotes and substitutions
  that it opens or closes, and its role.
-/
def stepOpen
    (q : Quoting)
    (c : Char)
    (next : Option Char) : Role × Quoting :=
  let inside := { q with wordStart := false, pending := .nothing }
  if c = '\x5c' then
    (.quoted, { inside with pending := .quotedNext })
  else if c = '\x27' ∧ !q.double ∧ !q.tick then
    (.quoted, { inside with single := true })
  else if c = '\x22' ∧ !q.tick then
    (.quoted, { inside with double := !q.double })
  else if c = '\x60' then
    (.quoted, { inside with tick := !q.tick })
  else if c = '$' ∧ next = some '(' then
    (.quoted, { inside with
      depth := q.depth + 1, pending := .quotedNext })
  else if c = '(' ∧ q.depth > 0 then
    (.quoted, { inside with depth := q.depth + 1 })
  else if c = ')' ∧ q.depth > 0 then
    (.quoted, { inside with depth := q.depth - 1 })
  else if c = '#' ∧ q.wordStart ∧ q.isNeutral then
    (.comment, { inside with
      wordStart := true, pending := .commentNext })
  else if q.isNeutral then
    (.bare, { inside with wordStart := endsWord c })
  else
    (.quoted, inside)

/-
  Read one character.  A character that was escaped is
  quoted, a comment runs up to the line feed, and nothing
  but the closing quote matters in single quotes.
-/
def step
    (q : Quoting)
    (c : Char)
    (next : Option Char) : Role × Quoting :=
  if q.pending = .quotedNext then
    (.quoted, { q with wordStart := false, pending := .nothing })
  else if q.pending = .commentNext ∧ c ≠ '\n' then
    (.comment, q)
  else if q.single then
    (.quoted, { q with
      single := c != '\x27', wordStart := false })
  else
    stepOpen q c next

end Quoting

------------------------------------------------------------
-- Scanning
------------------------------------------------------------

namespace Mark

/- The marks of a text that starts in a given state and place. -/
def scanFrom
    (q : Quoting)
    (pos : Nat) : Text → List Mark
  | [] => []
  | c :: rest =>
      let (role, after) := q.step c rest.head?
      ⟨pos, c, role⟩ ::
        scanFrom after (pos + c.utf8Size) rest

/- The marks of a text. -/
def scan
    (text : Text) : List Mark :=
  scanFrom .start 0 text

end Mark

end ShellToC
