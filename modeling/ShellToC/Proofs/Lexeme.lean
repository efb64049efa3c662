import ShellToC.Code.Literal

/-
  This file reads C text: its words, its literals and its
  signs, with blanks and comments left out.

  The text is read from the left, one character at a time.
  Two texts that stand side by side are read one after the
  other, unless a word or a comment runs across the seam.

  Key definitions include:
    * `Lexeme`
    * `Lexer.step`
    * `Lexeme.ofText`
    * `Lexeme.Reads`
    * `Lexeme.unclosed`
    * `Lexeme.calls`
-/

namespace ShellToC

------------------------------------------------------------
-- Lexemes
------------------------------------------------------------

/- The smallest parts of C text that matter to its structure. -/
inductive Lexeme where
  /- A run of name characters: a name, a keyword or a number. -/
  | word (w : Text)
  /- What stands between two quotes of the given kind. -/
  | literal (quote : Char) (inside : Text)
  /- Any other character that is not blank. -/
  | sign (c : Char)
  deriving DecidableEq, Repr

/- What the characters read so far leave open. -/
inductive Lexer where
  | idle
  | word (w : Text)
  /- A slash, which may yet open a comment. -/
  | slash
  | literal (quote : Char) (inside : Text)
  /- A literal right behind a backslash. -/
  | escape (quote : Char) (inside : Text)
  | lineComment
  | blockComment
  /- A block comment right behind a star. -/
  | blockStar
  deriving DecidableEq, Repr

namespace Lexer

------------------------------------------------------------
-- Reading
------------------------------------------------------------

/- Read a character where nothing is open. -/
def start
    (c : Char) : Lexer × List Lexeme :=
  if Text.isNameChar c then
    (.word [c], [])
  else if c = '\x22' ∨ c = '\x27' then
    (.literal c [], [])
  else if c = '/' then
    (.slash, [])
  else if Text.isBlank c then
    (.idle, [])
  else
    (.idle, [.sign c])

/- Read a character that ends the given lexeme. -/
def startAfter
    (lexeme : Lexeme)
    (c : Char) : Lexer × List Lexeme :=
  ((start c).1, lexeme :: (start c).2)

/- Read a character. -/
def step : Lexer → Char → Lexer × List Lexeme
  | .idle, c => start c
  | .word w, c =>
      if Text.isNameChar c then
        (.word (w ++ [c]), [])
      else
        startAfter (.word w) c
  | .slash, c =>
      if c = '/' then
        (.lineComment, [])
      else if c = '*' then
        (.blockComment, [])
      else
        startAfter (.sign '/') c
  | .literal quote inside, c =>
      if c = '\x5c' then
        (.escape quote (inside ++ [c]), [])
      else if c = quote then
        (.idle, [.literal quote inside])
      else
        (.literal quote (inside ++ [c]), [])
  | .escape quote inside, c =>
      (.literal quote (inside ++ [c]), [])
  | .lineComment, c =>
      if c = '\n' then (.idle, []) else (.lineComment, [])
  | .blockComment, c =>
      if c = '*' then (.blockStar, []) else (.blockComment, [])
  | .blockStar, c =>
      if c = '/' then
        (.idle, [])
      else if c = '*' then
        (.blockStar, [])
      else
        (.blockComment, [])

/- Whether at most a word is open. -/
def isEdge : Lexer → Bool
  | .idle => true
  | .word _ => true
  | _ => false

/- What is left open at the end of a text. -/
def flush : Lexer → List Lexeme
  | .word w => [.word w]
  | .slash => [.sign '/']
  | _ => []

/- The lexemes of a text, read from a given state on. -/
def read : Lexer → Text → List Lexeme
  | s, [] => s.flush
  | s, c :: rest => (s.step c).2 ++ read (s.step c).1 rest

/- The state in which a text leaves the reader. -/
def after
    (s : Lexer)
    (text : Text) : Lexer :=
  text.foldl (fun s c => (s.step c).1) s

/- The lexemes that are complete at the end of a text. -/
def emitted : Lexer → Text → List Lexeme
  | _, [] => []
  | s, c :: rest => (s.step c).2 ++ emitted (s.step c).1 rest

/- Two texts are read one after the other. -/
theorem read_append
    (s : Lexer)
    (a b : Text) :
    s.read (a ++ b) = s.emitted a ++ (s.after a).read b := by
  induction a generalizing s with
  | nil => rfl
  | cons c a ih =>
      simp only [List.cons_append, read, emitted, after,
        List.foldl_cons, List.append_assoc]
      rw [ih]
      rfl

end Lexer

namespace Lexeme

------------------------------------------------------------
-- Texts Side by Side
------------------------------------------------------------

/- The lexemes of a text. -/
def ofText
    (text : Text) : List Lexeme :=
  Lexer.idle.read text

/-
  Whether the character ends a word, and opens no comment
  behind a slash.
-/
def separates
    (c : Char) : Bool :=
  !Text.isNameChar c && c != '/' && c != '*'

/- The text is read as these lexemes, whatever follows it. -/
def ReadsWhole
    (text : Text)
    (ls : List Lexeme) : Prop :=
  ∀ rest, ofText (text ++ rest) = ls ++ ofText rest

/- The text is read as these lexemes if it is set apart from what follows. -/
def Reads
    (text : Text)
    (ls : List Lexeme) : Prop :=
  ∀ c rest, separates c = true →
    ofText (text ++ c :: rest) = ls ++ ofText (c :: rest)

/- A text that leaves nothing open is read alone. -/
theorem readsWhole_of_after
    {text : Text}
    (h : Lexer.idle.after text = .idle) :
    ReadsWhole text (Lexer.idle.emitted text) := by
  intro rest
  rw [ofText, Lexer.read_append, h]
  rfl

/- The empty text has no lexemes. -/
theorem readsWhole_nil : ReadsWhole [] [] :=
  fun _ => rfl

theorem ReadsWhole.reads
    {text : Text}
    {ls : List Lexeme}
    (h : ReadsWhole text ls) :
    Reads text ls :=
  fun c rest _ => h (c :: rest)

/- With nothing behind it, the text has these lexemes. -/
theorem ReadsWhole.ofText_eq
    {text : Text}
    {ls : List Lexeme}
    (h : ReadsWhole text ls) :
    ofText text = ls := by
  simpa [ofText, Lexer.read, Lexer.flush] using h []

theorem ReadsWhole.append
    {a b : Text}
    {la lb : List Lexeme}
    (ha : ReadsWhole a la)
    (hb : ReadsWhole b lb) :
    ReadsWhole (a ++ b) (la ++ lb) := by
  intro rest
  rw [List.append_assoc, ha, hb, List.append_assoc]

/- Parts side by side are read one after the other. -/
theorem readsWhole_flatMap
    {α : Type}
    {xs : List α}
    {text : α → Text}
    {lexemes : α → List Lexeme}
    (h : ∀ x ∈ xs, ReadsWhole (text x) (lexemes x)) :
    ReadsWhole (xs.flatMap text) (xs.flatMap lexemes) := by
  induction xs with
  | nil => exact readsWhole_nil
  | cons x xs ih =>
      rw [List.flatMap_cons, List.flatMap_cons]
      exact (h x List.mem_cons_self).append
        (ih fun y hy => h y (List.mem_cons_of_mem _ hy))

theorem ReadsWhole.append_reads
    {a b : Text}
    {la lb : List Lexeme}
    (ha : ReadsWhole a la)
    (hb : Reads b lb) :
    Reads (a ++ b) (la ++ lb) := by
  intro c rest hc
  rw [List.append_assoc, ha, hb c rest hc,
    List.append_assoc]

theorem Reads.append_readsWhole
    {a b : Text}
    {la lb : List Lexeme}
    (ha : Reads a la)
    (hb : ReadsWhole b lb)
    (hHead : b.head?.any separates = true) :
    ReadsWhole (a ++ b) (la ++ lb) := by
  intro rest
  cases b with
  | nil => simp at hHead
  | cons c b =>
      have hRest := hb rest
      rw [List.cons_append] at hRest
      rw [List.append_assoc, List.cons_append,
        ha c (b ++ rest) (by simpa using hHead), hRest,
        List.append_assoc]

theorem Reads.append
    {a b : Text}
    {la lb : List Lexeme}
    (ha : Reads a la)
    (hb : Reads b lb)
    (hHead : b.head?.any separates = true) :
    Reads (a ++ b) (la ++ lb) := by
  intro d rest hd
  cases b with
  | nil => simp at hHead
  | cons c b =>
      have hRest := hb d rest hd
      rw [List.cons_append] at hRest
      rw [List.append_assoc, List.cons_append,
        ha c (b ++ d :: rest) (by simpa using hHead), hRest,
        List.append_assoc]

------------------------------------------------------------
-- Words and Slashes
------------------------------------------------------------

/- A character that is no name character ends a word. -/
theorem read_word
    (u w : Text)
    (c : Char)
    (rest : Text)
    (hWord : w.all Text.isNameChar = true)
    (hc : separates c = true) :
    (Lexer.word u).read (w ++ c :: rest) =
      .word (u ++ w) :: ofText (c :: rest) := by
  induction w generalizing u with
  | nil =>
      have hName : Text.isNameChar c = false := by
        simp [separates] at hc
        exact hc.1.1
      simp [Lexer.read, Lexer.step, Lexer.startAfter,
        ofText, hName]
  | cons d w ih =>
      simp only [List.all_cons, Bool.and_eq_true] at hWord
      simp [Lexer.read, Lexer.step, hWord.1, ih _ hWord.2]

/- A run of name characters is one word. -/
theorem reads_word
    {w : Text}
    (hNonempty : w ≠ [])
    (hWord : w.all Text.isNameChar = true) :
    Reads w [.word w] := by
  intro c rest hc
  cases w with
  | nil => contradiction
  | cons d w =>
      simp only [List.all_cons, Bool.and_eq_true] at hWord
      have hRead := read_word [d] w c rest hWord.2 hc
      simpa [ofText, Lexer.read, Lexer.step, Lexer.start,
        hWord.1] using hRead

/- A slash is a sign if no comment starts with it. -/
theorem reads_slash : Reads ['/'] [.sign '/'] := by
  intro c rest hc
  simp only [separates, Bool.and_eq_true, bne_iff_ne] at hc
  have hName : Text.isNameChar '/' = false := by decide
  simp [ofText, Lexer.read, Lexer.step, Lexer.start,
    Lexer.startAfter, hName, hc.1.2, hc.2]

------------------------------------------------------------
-- Blanks
------------------------------------------------------------

/- The code points of name characters. -/
theorem toNat_of_isNameChar
    {c : Char}
    (h : Text.isNameChar c = true) :
    (48 ≤ c.toNat ∧ c.toNat ≤ 57) ∨
      (65 ≤ c.toNat ∧ c.toNat ≤ 90) ∨ c.toNat = 95 ∨
      (97 ≤ c.toNat ∧ c.toNat ≤ 122) := by
  delta Text.isNameChar Char.isAlphanum Char.isAlpha
    Char.isUpper Char.isLower Char.isDigit at h
  simp only [Bool.or_eq_true, Bool.and_eq_true,
    decide_eq_true_eq, UInt32.le_iff_toNat_le,
    beq_iff_eq] at h
  rcases h with ((h | h) | h) | rfl
  · exact Or.inr (Or.inl h)
  · exact Or.inr (Or.inr (Or.inr h))
  · exact Or.inl h
  · decide

/- A blank is no name character. -/
theorem isNameChar_of_isBlank
    {c : Char}
    (h : Text.isBlank c = true) :
    Text.isNameChar c = false := by
  cases hc : Text.isNameChar c with
  | false => rfl
  | true =>
      have hRange := toNat_of_isNameChar hc
      simp [Text.isBlank, Text.blankRanges] at h
      omega

/- Blanks are left out. -/
theorem start_of_isBlank
    {c : Char}
    (h : Text.isBlank c = true) :
    Lexer.start c = (.idle, []) := by
  have hName := isNameChar_of_isBlank h
  have hDouble : c ≠ '\x22' := by
    rintro rfl
    exact absurd h (by decide)
  have hSingle : c ≠ '\x27' := by
    rintro rfl
    exact absurd h (by decide)
  have hSlash : c ≠ '/' := by
    rintro rfl
    exact absurd h (by decide)
  simp [Lexer.start, hName, hDouble, hSingle, hSlash, h]

/- A text of blanks has no lexemes. -/
theorem readsWhole_of_isAllBlank
    {text : Text}
    (h : text.isAllBlank = true) :
    ReadsWhole text [] := by
  intro rest
  induction text with
  | nil => rfl
  | cons c text ih =>
      simp only [Text.isAllBlank, List.all_cons,
        Bool.and_eq_true] at h
      have hStart := start_of_isBlank h.1
      simpa [ofText, Lexer.read, Lexer.step, hStart] using
        ih h.2

------------------------------------------------------------
-- Literals
------------------------------------------------------------

/- An octal digit is neither a quote nor a backslash. -/
theorem digitChar_octal
    (n : Nat) :
    Nat.digitChar (n % 8) ≠ '\x5c' ∧
      Nat.digitChar (n % 8) ≠ '\x22' := by
  have hLess : n % 8 < 8 := Nat.mod_lt _ (by decide)
  generalize n % 8 = d at hLess
  revert d
  decide

/- An escaped character stays inside of its literal. -/
theorem read_escape
    (afterQuestion : Bool)
    (c : Char)
    (inside rest : Text) :
    (Lexer.literal '\x22' inside).read
        (Literal.escape afterQuestion c ++ rest) =
      (Lexer.literal '\x22'
        (inside ++ Literal.escape afterQuestion c)).read
          rest := by
  unfold Literal.escape
  split
  · simp [Lexer.read, Lexer.step]
  split
  · simp [Lexer.read, Lexer.step]
  split
  · simp [Lexer.read, Lexer.step]
  split
  · simp [Lexer.read, Lexer.step]
  split
  · simp [Lexer.read, Lexer.step]
  split
  · have hMiddle := digitChar_octal (c.toNat / 8)
    have hLast := digitChar_octal c.toNat
    simp [Literal.octal, Lexer.read, Lexer.step, hMiddle,
      hLast]
  · rename_i hQuote _ _ _ _ _
    rw [not_or] at hQuote
    simp [Lexer.read, Lexer.step, hQuote]

/- The inside of a literal ends at its closing quote. -/
theorem read_escapeFrom
    (afterQuestion : Bool)
    (text inside rest : Text) :
    (Lexer.literal '\x22' inside).read
        (Literal.escapeFrom afterQuestion text ++
          '\x22' :: rest) =
      .literal '\x22'
          (inside ++
            Literal.escapeFrom afterQuestion text) ::
        ofText rest := by
  induction text generalizing afterQuestion inside with
  | nil =>
      simp [Literal.escapeFrom, Lexer.read, Lexer.step,
        ofText]
  | cons c text ih =>
      rw [Literal.escapeFrom, List.append_assoc,
        read_escape, ih, List.append_assoc]

/- A quoted text is one literal. -/
theorem readsWhole_quote
    (text : Text) :
    ReadsWhole (Literal.quote text)
      [.literal '\x22' (Literal.escapeFrom false text)] := by
  intro rest
  have hInside := read_escapeFrom false text [] rest
  have hName : Text.isNameChar '\x22' = false := by decide
  simpa [Literal.quote, ofText, Lexer.read, Lexer.step,
    Lexer.start, hName] using hInside

------------------------------------------------------------
-- Comments
------------------------------------------------------------

/- A comment end is a star with a slash behind it. -/
theorem occursIn_commentEnd_cons
    (c : Char)
    (rest : Text) :
    Text.occursIn "*/" (c :: rest) = false ↔
      (c = '*' → rest.head? ≠ some '/') ∧
        Text.occursIn "*/" rest = false := by
  have hChars : Text.ofString "*/" = ['*', '/'] := by
    rw [Text.ofString_eq]
    rfl
  rw [hChars, Text.occursIn, Bool.or_eq_false_iff]
  apply and_congr_left'
  cases rest with
  | nil => simp [List.isPrefixOf]
  | cons d rest =>
      simp only [List.isPrefixOf, Bool.and_true,
        Bool.and_eq_false_imp, beq_iff_eq, beq_eq_false_iff_ne,
        List.head?_cons, ne_eq, Option.some.injEq]
      constructor
      · intro h hc hd
        exact h hc.symm hd.symm
      · intro h hc hd
        exact h hc.symm hd.symm

/- Without a star there is no comment end. -/
theorem occursIn_commentEnd_of_all
    {text : Text}
    (h : ∀ c ∈ text, c ≠ '*') :
    Text.occursIn "*/" text = false := by
  induction text with
  | nil => decide +kernel
  | cons c text ih =>
      refine (occursIn_commentEnd_cons c text).mpr ⟨?_, ?_⟩
      · intro hc
        exact absurd hc (h c (by simp))
      · exact ih (fun d hd => h d (List.mem_cons_of_mem _ hd))

/-
  Text without a comment end keeps a comment open.  Behind a
  star the next character must not be a slash, so the claim
  is made for both states of a comment.
-/
theorem read_comment
    (s : Lexer)
    (text : Text)
    (c : Char)
    (rest : Text)
    (hText : Text.occursIn "*/" text = false)
    (hState : s = .blockComment ∨
      s = .blockStar ∧ (text ++ [c]).head? ≠ some '/')
    (hc : c ≠ '/') :
    s.read (text ++ c :: rest) =
      Lexer.blockComment.read (c :: rest) := by
  induction text generalizing s with
  | nil =>
      rcases hState with rfl | ⟨rfl, _⟩
      · rfl
      · simp [Lexer.read, Lexer.step, hc]
  | cons d text ih =>
      have hCons := (occursIn_commentEnd_cons d text).mp hText
      have hStar (hd : d = '*') :
          (text ++ [c]).head? ≠ some '/' := by
        cases text with
        | nil => simpa using hc
        | cons e text => simpa using hCons.1 hd
      have hNext : (Lexer.step s d).2 = [] ∧
          ((Lexer.step s d).1 = .blockComment ∨
            (Lexer.step s d).1 = .blockStar ∧
              (text ++ [c]).head? ≠ some '/') := by
        by_cases hd : d = '*'
        · have hHead := hStar hd
          subst hd
          rcases hState with rfl | ⟨rfl, _⟩
          · exact ⟨rfl, Or.inr ⟨rfl, hHead⟩⟩
          · exact ⟨rfl, Or.inr ⟨rfl, hHead⟩⟩
        · rcases hState with rfl | ⟨rfl, hHead⟩
          · simp [Lexer.step, hd]
          · have hSlash : d ≠ '/' := by simpa using hHead
            simp [Lexer.step, hd, hSlash]
      rw [List.cons_append, Lexer.read, hNext.1,
        List.nil_append]
      exact ih _ hCons.2 hNext.2

------------------------------------------------------------
-- Braces
------------------------------------------------------------

/- By how much a lexeme changes the number of open braces. -/
def brace : Lexeme → Int
  | .sign c =>
      if c = '\x7b' then 1 else if c = '\x7d' then -1 else 0
  | _ => 0

/- How many more braces are opened than closed. -/
def unclosed : List Lexeme → Int
  | [] => 0
  | l :: ls => l.brace + unclosed ls

@[simp] theorem unclosed_nil : unclosed [] = 0 := rfl

@[simp] theorem unclosed_cons
    (l : Lexeme)
    (ls : List Lexeme) :
    unclosed (l :: ls) = l.brace + unclosed ls := rfl

@[simp] theorem unclosed_append
    (a b : List Lexeme) :
    unclosed (a ++ b) = unclosed a + unclosed b := by
  induction a with
  | nil => simp
  | cons l a ih => simp [ih, Int.add_assoc]

------------------------------------------------------------
-- Calls
------------------------------------------------------------

/- The words right before an opening parenthesis. -/
def calls : List Lexeme → List Text
  | [] => []
  | .word w :: rest =>
      (if rest.head? = some (.sign '(') then [w] else []) ++
        calls rest
  | _ :: rest => calls rest

/- A call stays a call, whatever follows it. -/
theorem mem_calls_append_left
    {w : Text}
    {a : List Lexeme}
    (h : w ∈ calls a)
    (b : List Lexeme) :
    w ∈ calls (a ++ b) := by
  induction a with
  | nil => simp [calls] at h
  | cons l a ih =>
      cases l with
      | word v =>
          simp only [calls, List.mem_append] at h
          simp only [List.cons_append, calls,
            List.mem_append]
          rcases h with h | h
          · cases a with
            | nil => simp at h
            | cons m a => exact Or.inl h
          · exact Or.inr (ih h)
      | literal quote inside => exact ih h
      | sign c => exact ih h

/- A call stays a call, whatever stands before it. -/
theorem mem_calls_append_right
    {w : Text}
    (a : List Lexeme)
    {b : List Lexeme}
    (h : w ∈ calls b) :
    w ∈ calls (a ++ b) := by
  induction a with
  | nil => exact h
  | cons l a ih =>
      cases l with
      | word v => exact List.mem_append_right _ ih
      | literal quote inside => exact ih
      | sign c => exact ih

/- A called word is a word. -/
theorem word_mem_of_mem_calls
    {w : Text}
    {ls : List Lexeme}
    (h : w ∈ calls ls) :
    .word w ∈ ls := by
  induction ls with
  | nil => simp [calls] at h
  | cons l ls ih =>
      cases l with
      | word v =>
          simp only [calls, List.mem_append] at h
          rcases h with h | h
          · split at h
            · simp_all
            · simp at h
          · exact List.mem_cons_of_mem _ (ih h)
      | literal quote inside =>
          exact List.mem_cons_of_mem _ (ih h)
      | sign c => exact List.mem_cons_of_mem _ (ih h)

end Lexeme

end ShellToC
