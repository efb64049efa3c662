import ShellToC.Proofs.Lexeme

/-
  This file reads the tokens of C text by the rule of the
  longest match.

  A token goes on as long as the next character can be a part
  of it.  So two minus signs side by side are one token, and
  a plus sign right behind an `e` belongs to the number in
  which the `e` stands.  The signs `...` and `%:%:`, which
  stand in no expression, are not known.

  Key definitions include:
    * `CToken`
    * `Scanner.step`
    * `CToken.ofText`
    * `CToken.Reads`

  Main declarations:
    * `CToken.Reads.append`
    * `CToken.reads_name`
    * `CToken.reads_number`
    * `CToken.reads_quote`
-/

namespace ShellToC

------------------------------------------------------------
-- Tokens
------------------------------------------------------------

/- The tokens that C text is made of. -/
inductive CToken where
  /- A name or a keyword. -/
  | word (w : Text)
  /- A number as the preprocessor sees it, well-formed or not. -/
  | number (w : Text)
  /- What stands between two quotes of the given kind. -/
  | literal (quote : Char) (inside : Text)
  /- A sign of one or more characters. -/
  | sign (symbol : Text)
  deriving DecidableEq, Repr

namespace CToken

/- Whether C takes the character for white space. -/
def isSpace
    (c : Char) : Bool :=
  c == ' ' || (9 ≤ c.toNat && c.toNat ≤ 13)

/- The signs of more than one character. -/
def longSigns : List Text :=
  [['+', '+'], ['-', '-'], ['<', '<'], ['>', '>'],
   ['&', '&'], ['|', '|'], ['#', '#'], ['-', '>'],
   ['=', '='], ['!', '='], ['<', '='], ['>', '='],
   ['+', '='], ['-', '='], ['*', '='], ['/', '='],
   ['%', '='], ['&', '='], ['|', '='], ['^', '='],
   ['<', '<', '='], ['>', '>', '='],
   ['<', ':'], [':', '>'], ['<', '%'], ['%', '>'],
   ['%', ':']]

/- Signs that no character makes longer. -/
def loneSigns : List Char :=
  ['(', ')', '[', ']', '\x7b', '\x7d', ',', ';', '?', '~']

/- Whether a number goes on with the character. -/
def continuesNumber
    (number : Text)
    (c : Char) : Bool :=
  Text.isNameChar c || c == '.' ||
    ((c == '+' || c == '-') &&
      number.getLast?.any ['e', 'E', 'p', 'P'].contains)

end CToken

------------------------------------------------------------
-- Reading
------------------------------------------------------------

/- What the characters read so far leave open. -/
inductive Scanner where
  | idle
  | word (w : Text)
  | number (w : Text)
  | sign (symbol : Text)
  | literal (quote : Char) (inside : Text)
  /- A literal right behind a backslash. -/
  | escape (quote : Char) (inside : Text)
  | lineComment
  | blockComment
  /- A block comment right behind a star. -/
  | blockStar
  deriving DecidableEq, Repr

namespace Scanner

open CToken

/- Read a character where nothing is open. -/
def start
    (c : Char) : Scanner × List CToken :=
  if Text.isNameStart c then
    (.word [c], [])
  else if c.isDigit then
    (.number [c], [])
  else if c = '\x22' ∨ c = '\x27' then
    (.literal c [], [])
  else if isSpace c then
    (.idle, [])
  else if loneSigns.contains c then
    (.idle, [.sign [c]])
  else
    (.sign [c], [])

/-
  The token that is left open.  A literal or a comment that
  is not closed counts as a sign that stands nowhere.
-/
def flush : Scanner → List CToken
  | .idle => []
  | .word w => [.word w]
  | .number w => [.number w]
  | .sign symbol => [.sign symbol]
  | .literal quote _ => [.sign [quote]]
  | .escape quote _ => [.sign [quote]]
  | .lineComment => []
  | .blockComment => [.sign ['/', '*']]
  | .blockStar => [.sign ['/', '*']]

/- Read a character that ends what is open. -/
def startAfter
    (s : Scanner)
    (c : Char) : Scanner × List CToken :=
  ((start c).1, s.flush ++ (start c).2)

/- Read a character behind a sign. -/
def stepSign
    (symbol : Text)
    (c : Char) : Scanner × List CToken :=
  if longSigns.contains (symbol ++ [c]) then
    (.sign (symbol ++ [c]), [])
  else if symbol = ['/'] ∧ c = '/' then
    (.lineComment, [])
  else if symbol = ['/'] ∧ c = '*' then
    (.blockComment, [])
  else if symbol = ['.'] ∧ c.isDigit then
    (.number ['.', c], [])
  else
    startAfter (.sign symbol) c

/- Read a character. -/
def step : Scanner → Char → Scanner × List CToken
  | .idle, c => start c
  | .word w, c =>
      if Text.isNameChar c then
        (.word (w ++ [c]), [])
      else
        startAfter (.word w) c
  | .number w, c =>
      if continuesNumber w c then
        (.number (w ++ [c]), [])
      else
        startAfter (.number w) c
  | .sign symbol, c => stepSign symbol c
  | .literal quote inside, c =>
      if c = '\x5c' then
        (.escape quote (inside ++ [c]), [])
      else if c = quote then
        (.idle, [.literal quote inside])
      else
        (.literal quote (inside ++ [c]), [])
  | .escape quote inside, c =>
      (.literal quote (inside ++ [c]), [])
  | .lineComment, c =>
      if c = '\n' then (.idle, []) else (.lineComment, [])
  | .blockComment, c =>
      if c = '*' then (.blockStar, []) else (.blockComment, [])
  | .blockStar, c =>
      if c = '/' then
        (.idle, [])
      else if c = '*' then
        (.blockStar, [])
      else
        (.blockComment, [])

/- Read a text: what it leaves open, and the tokens that it ends. -/
def scan : Scanner → Text → Scanner × List CToken
  | s, [] => (s, [])
  | s, c :: rest =>
      ((scan (s.step c).1 rest).1,
        (s.step c).2 ++ (scan (s.step c).1 rest).2)

/- Two texts are read one after the other. -/
theorem scan_append
    (s : Scanner)
    (a b : Text) :
    s.scan (a ++ b) =
      (((s.scan a).1.scan b).1,
        (s.scan a).2 ++ ((s.scan a).1.scan b).2) := by
  induction a generalizing s with
  | nil => rfl
  | cons c a ih =>
      simp only [List.cons_append, scan, ih, List.append_assoc]

/- Whether no more than a token that may go on is open. -/
def isEdge : Scanner → Bool
  | .idle => true
  | .word _ => true
  | .number _ => true
  | .sign _ => true
  | _ => false

end Scanner

namespace CToken

------------------------------------------------------------
-- Texts Side by Side
------------------------------------------------------------

/- The tokens of a text. -/
def ofText
    (text : Text) : List CToken :=
  (Scanner.idle.scan text).2 ++
    (Scanner.idle.scan text).1.flush

/- The text is read as these tokens, and no comment or literal is open. -/
structure Reads
    (text : Text)
    (ts : List CToken) : Prop where
  isEdge : (Scanner.idle.scan text).1.isEdge = true
  ofText_eq : ofText text = ts

/- The character ends what the text leaves open. -/
def EndedBy
    (text : Text)
    (c : Char) : Prop :=
  (Scanner.idle.scan text).1.step c =
    (Scanner.idle.scan text).1.startAfter c

/-
  The tokens of two texts side by side are those of the one
  and those of the other, if the first character of the other
  ends what the one leaves open.
-/
theorem Reads.append
    {a b : Text}
    {ta tb : List CToken}
    (ha : Reads a ta)
    (hb : Reads b tb)
    (hSeam : ∀ c ∈ b.head?, EndedBy a c) :
    Reads (a ++ b) (ta ++ tb) := by
  cases b with
  | nil =>
      have hNone : tb = [] := hb.ofText_eq.symm
      simpa [hNone] using ha
  | cons c b =>
      have hStep := hSeam c rfl
      unfold EndedBy Scanner.startAfter at hStep
      have hStart : Scanner.idle.step c = Scanner.start c := rfl
      have hScan : Scanner.idle.scan (a ++ c :: b) =
          ((Scanner.idle.scan (c :: b)).1,
            ofText a ++ (Scanner.idle.scan (c :: b)).2) := by
        rw [Scanner.scan_append, Scanner.scan, Scanner.scan,
          hStep, hStart, ofText]
        simp only [List.append_assoc]
      refine ⟨?_, ?_⟩
      · rw [hScan]
        exact hb.isEdge
      · rw [ofText, hScan, List.append_assoc, ← ha.ofText_eq,
          ← hb.ofText_eq]
        rfl

/- Characters that end every token. -/
def separates
    (c : Char) : Bool :=
  [' ', '(', ')', '[', ']', ','].contains c

/- What ends every token ends the last one of a text. -/
theorem Reads.endedBy
    {text : Text}
    {ts : List CToken}
    (h : Reads text ts)
    {c : Char}
    (hc : separates c = true) :
    EndedBy text c := by
  have hEdge := h.isEdge
  unfold EndedBy
  -- None of these characters stands in a longer sign or a number.
  have hFacts : Text.isNameChar c = false ∧
      (c == '.') = false ∧ (c == '+') = false ∧
      (c == '-') = false ∧ c.isDigit = false ∧ c ≠ '/' ∧
      c ≠ '*' ∧ ∀ s ∈ longSigns, s.getLast? ≠ some c := by
    simp only [separates, List.contains_eq_mem,
      decide_eq_true_eq, List.mem_cons, List.not_mem_nil,
      or_false] at hc
    rcases hc with rfl | rfl | rfl | rfl | rfl | rfl <;> decide
  obtain ⟨hName, hDot, hPlus, hMinus, hDigit, hSlash, hStar,
    hLong⟩ := hFacts
  cases hState : (Scanner.idle.scan text).1 with
  | idle => rfl
  | word w => simp [Scanner.step, hName]
  | number w =>
      simp [Scanner.step, continuesNumber, hName, hDot, hPlus,
        hMinus]
  | sign symbol =>
      have hOut : symbol ++ [c] ∉ longSigns := by
        intro hIn
        exact hLong _ hIn (by simp)
      simp [Scanner.step, Scanner.stepSign, hOut, hSlash, hStar,
        hDigit]
  | _ => simp [hState, Scanner.isEdge] at hEdge

/- A text that starts with a character that ends every token. -/
def isApart
    (text : Text) : Bool :=
  text.head?.all separates

/- What is set apart is read by itself. -/
theorem Reads.append_apart
    {a b : Text}
    {ta tb : List CToken}
    (ha : Reads a ta)
    (hb : Reads b tb)
    (hApart : isApart b = true) :
    Reads (a ++ b) (ta ++ tb) := by
  apply ha.append hb
  intro c hc
  apply ha.endedBy
  simp only [isApart, Option.all_eq_true] at hApart
  exact hApart c hc

/- Behind a text that leaves nothing open, any text is read by itself. -/
theorem Reads.append_closed
    {a b : Text}
    {ta tb : List CToken}
    (ha : Reads a ta)
    (hb : Reads b tb)
    (hClosed : (Scanner.idle.scan a).1 = .idle) :
    Reads (a ++ b) (ta ++ tb) := by
  apply ha.append hb
  intro c _
  unfold EndedBy
  rw [hClosed]
  rfl

/- Fixed text is read as the tokens that it is computed to have. -/
theorem reads_fixed
    {text : Text}
    {ts : List CToken}
    (h : (Scanner.idle.scan text).1.isEdge = true ∧
      ofText text = ts) :
    Reads text ts :=
  ⟨h.1, h.2⟩

------------------------------------------------------------
-- Names and Numbers
------------------------------------------------------------

/- Name characters go on a name. -/
theorem scan_word
    (u w : Text)
    (hWord : w.all Text.isNameChar = true) :
    (Scanner.word u).scan w = (.word (u ++ w), []) := by
  induction w generalizing u with
  | nil => simp [Scanner.scan]
  | cons c w ih =>
      simp only [List.all_cons, Bool.and_eq_true] at hWord
      simp [Scanner.scan, Scanner.step, hWord.1, ih _ hWord.2]

/- Name characters go on a number. -/
theorem scan_number
    (u w : Text)
    (hWord : w.all Text.isNameChar = true) :
    (Scanner.number u).scan w = (.number (u ++ w), []) := by
  induction w generalizing u with
  | nil => simp [Scanner.scan]
  | cons c w ih =>
      simp only [List.all_cons, Bool.and_eq_true] at hWord
      simp [Scanner.scan, Scanner.step, continuesNumber,
        hWord.1, ih _ hWord.2]

/- A name is one token. -/
theorem reads_name
    {name : Text}
    (h : Text.isName name = true) :
    Reads name [.word name] := by
  cases name with
  | nil => simp [Text.isName] at h
  | cons c rest =>
      simp only [Text.isName, Bool.and_eq_true] at h
      have hScan : Scanner.idle.scan (c :: rest) =
          (.word (c :: rest), []) := by
        simp [Scanner.scan, Scanner.step, Scanner.start, h.1,
          scan_word [c] rest h.2]
      refine ⟨?_, ?_⟩
      · rw [hScan]
        rfl
      · rw [ofText, hScan]
        rfl

/- A digit starts no name. -/
theorem isNameStart_of_isDigit
    {c : Char}
    (h : c.isDigit = true) :
    Text.isNameStart c = false := by
  have hRange : 48 ≤ c.toNat ∧ c.toNat ≤ 57 := by
    simpa [Char.isDigit, UInt32.le_iff_toNat_le] using h
  cases hStart : Text.isNameStart c with
  | false => rfl
  | true =>
      delta Text.isNameStart Char.isAlpha Char.isUpper
        Char.isLower at hStart
      simp only [Bool.or_eq_true, Bool.and_eq_true,
        decide_eq_true_eq, UInt32.le_iff_toNat_le,
        beq_iff_eq] at hStart
      rcases hStart with (hUpper | hLower) | rfl
      · have := hUpper.1
        change 65 ≤ c.toNat at this
        omega
      · have := hLower.1
        change 97 ≤ c.toNat at this
        omega
      · simp at hRange

/- A digit with name characters behind it is one number. -/
theorem reads_number
    {numeral : Text}
    (hHead : numeral.head?.any Char.isDigit = true)
    (hAll : numeral.all Text.isNameChar = true) :
    Reads numeral [.number numeral] := by
  cases numeral with
  | nil => simp at hHead
  | cons c rest =>
      have hDigit : c.isDigit = true := by simpa using hHead
      simp only [List.all_cons, Bool.and_eq_true] at hAll
      have hScan : Scanner.idle.scan (c :: rest) =
          (.number (c :: rest), []) := by
        simp [Scanner.scan, Scanner.step, Scanner.start, hDigit,
          isNameStart_of_isDigit hDigit,
          scan_number [c] rest hAll.2]
      refine ⟨?_, ?_⟩
      · rw [hScan]
        rfl
      · rw [ofText, hScan]
        rfl

------------------------------------------------------------
-- Literals
------------------------------------------------------------

/- An escaped character stays inside of its literal. -/
theorem scan_escape
    (afterQuestion : Bool)
    (c : Char)
    (inside : Text) :
    (Scanner.literal '\x22' inside).scan
        (Literal.escape afterQuestion c) =
      (.literal '\x22'
        (inside ++ Literal.escape afterQuestion c), []) := by
  unfold Literal.escape
  split
  · simp [Scanner.scan, Scanner.step]
  split
  · simp [Scanner.scan, Scanner.step]
  split
  · simp [Scanner.scan, Scanner.step]
  split
  · simp [Scanner.scan, Scanner.step]
  split
  · simp [Scanner.scan, Scanner.step]
  split
  · have hMiddle := Lexeme.digitChar_octal (c.toNat / 8)
    have hLast := Lexeme.digitChar_octal c.toNat
    simp [Literal.octal, Scanner.scan, Scanner.step, hMiddle,
      hLast]
  · rename_i hQuote _ _ _ _ _
    rw [not_or] at hQuote
    simp [Scanner.scan, Scanner.step, hQuote]

/- The inside of a literal does not end it. -/
theorem scan_escapeFrom
    (afterQuestion : Bool)
    (text inside : Text) :
    (Scanner.literal '\x22' inside).scan
        (Literal.escapeFrom afterQuestion text) =
      (.literal '\x22'
        (inside ++ Literal.escapeFrom afterQuestion text),
          []) := by
  induction text generalizing afterQuestion inside with
  | nil => simp [Literal.escapeFrom, Scanner.scan]
  | cons c text ih =>
      rw [Literal.escapeFrom, Scanner.scan_append, scan_escape,
        ih]
      simp

/- A quoted text is one literal. -/
theorem reads_quote
    (text : Text) :
    Reads (Literal.quote text)
      [.literal '\x22' (Literal.escapeFrom false text)] := by
  have hScan : Scanner.idle.scan (Literal.quote text) =
      (.idle,
        [.literal '\x22' (Literal.escapeFrom false text)]) := by
    have hOpen : Scanner.idle.step '\x22' =
        (.literal '\x22' [], []) := by decide
    rw [Literal.quote, List.cons_append, Scanner.scan, hOpen,
      Scanner.scan_append, scan_escapeFrom]
    simp [Scanner.scan, Scanner.step]
  refine ⟨?_, ?_⟩
  · rw [hScan]
    rfl
  · rw [ofText, hScan]
    rfl

end CToken

end ShellToC
