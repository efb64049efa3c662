import ShellToC.Proofs.Growth
import ShellToC.Proofs.LeadingKeyword
import ShellToC.Proofs.References

/-
  This file follows a script that prints texts in single
  quotes through all of its stages.

  Whatever stands in the quotes, it is neither cut, nor taken
  for an operator, nor resolved: the program prints the texts
  as they are.

  Key definitions include:
    * `Text.singleQuoted`
    * `Text.IsQuotable`
    * `Statement.quotedEcho`

  Main declarations:
    * `Statement.closes_quotedEcho`
    * `Command.ofText_quotedEcho`
    * `Draft.ofScript_quotedEchos`
-/

namespace ShellToC

------------------------------------------------------------
-- Text in Single Quotes
------------------------------------------------------------

namespace Text

/- A text in single quotes. -/
def singleQuoted
    (text : Text) : Text :=
  "\x27" ++ text ++ "\x27"

/-
  A text on one line that can stand in single quotes, and
  that mentions no command substitution.
-/
structure IsQuotable
    (text : Text) : Prop where
  quote : '\x27' ∉ text
  lineFeed : '\n' ∉ text
  backtick : '\x60' ∉ text
  dollar : occursIn "$(" text = false

instance
    (text : Text) : Decidable (IsQuotable text) :=
  decidable_of_iff
    ('\x27' ∉ text ∧ '\n' ∉ text ∧ '\x60' ∉ text ∧
      occursIn "$(" text = false)
    ⟨fun h => ⟨h.1, h.2.1, h.2.2.1, h.2.2.2⟩,
      fun h => ⟨h.quote, h.lineFeed, h.backtick, h.dollar⟩⟩

theorem singleQuoted_eq
    (text : Text) :
    singleQuoted text = '\x27' :: (text ++ ['\x27']) := by
  rw [singleQuoted, ofString_ofList]
  rfl

/- What is no part of the quotes occurs in quotes as it occurs without. -/
theorem occursIn_singleQuoted
    {c : Char}
    {part : Text}
    (h : '\x27' ∉ c :: part)
    (text : Text) :
    occursIn (c :: part) (singleQuoted text) =
      occursIn (c :: part) text := by
  have hc : '\x27' ≠ c :=
    fun hc => h (List.mem_cons.mpr (Or.inl hc))
  rw [singleQuoted_eq, occursIn_cons hc,
    occursIn_concat (by simp) h]

theorem IsQuotable.mentionsSubstitution
    {text : Text}
    (h : IsQuotable text) :
    Pattern.mentionsSubstitution (singleQuoted text) =
      false := by
  have hDollar := h.dollar
  rw [ofString_ofList] at hDollar
  rw [Pattern.mentionsSubstitution, ofString_ofList,
    occursIn_singleQuoted (by decide), hDollar]
  simp [singleQuoted_eq, h.backtick]

end Text

namespace Mark

/- The quoting state inside of single quotes. -/
def inSingle : Quoting :=
  { Quoting.start with single := true, wordStart := false }

/-
  All that stands in single quotes is quoted, and so is the
  closing quote.  Nothing is open behind it.
-/
theorem exists_scanFrom_inSingle
    {text : Text}
    (h : '\x27' ∉ text)
    (pos : Nat)
    (rest : Text) :
    ∃ marks pos',
      scanFrom inSingle pos (text ++ '\x27' :: rest) =
        marks ++ scanFrom { Quoting.start with wordStart := false }
          pos' rest ∧
      ∀ m ∈ marks, m.role = .quoted := by
  induction text generalizing pos with
  | nil =>
      refine ⟨[⟨pos, '\x27', .quoted⟩], pos + '\x27'.utf8Size,
        rfl, by simp⟩
  | cons c text ih =>
      simp only [List.mem_cons, not_or] at h
      have hStep : inSingle.step c (text ++ '\x27' :: rest).head? =
          (.quoted, inSingle) := by
        simp [Quoting.step, inSingle, Quoting.start,
          Ne.symm h.1]
      rcases ih h.2 (pos + c.utf8Size) with
        ⟨marks, pos', hScan, hMarks⟩
      refine ⟨⟨pos, c, .quoted⟩ :: marks, pos', ?_, ?_⟩
      · rw [List.cons_append, scanFrom, hStep, List.cons_append,
          ← hScan]
      · exact List.forall_mem_cons.mpr ⟨rfl, hMarks⟩

/- All of a text in single quotes is quoted, whatever follows it. -/
theorem exists_scanFrom_singleQuoted
    {text : Text}
    (h : '\x27' ∉ text)
    (w : Bool)
    (pos : Nat)
    (rest : Text) :
    ∃ marks pos',
      scanFrom { Quoting.start with wordStart := w } pos
          (Text.singleQuoted text ++ rest) =
        marks ++ scanFrom { Quoting.start with wordStart := false }
          pos' rest ∧
      ∀ m ∈ marks, m.role = .quoted := by
  have hStep (next : Option Char) :
      ({ Quoting.start with wordStart := w } : Quoting).step
        '\x27' next = (.quoted, inSingle) := by
    simp [Quoting.step, Quoting.stepOpen, inSingle,
      Quoting.start]
  rcases exists_scanFrom_inSingle h (pos + '\x27'.utf8Size) rest
    with ⟨marks, pos', hScan, hMarks⟩
  refine ⟨⟨pos, '\x27', .quoted⟩ :: marks, pos', ?_, ?_⟩
  · rw [Text.singleQuoted_eq, List.cons_append, List.append_assoc,
      List.singleton_append, scanFrom, hStep, List.cons_append,
      ← hScan]
  · exact List.forall_mem_cons.mpr ⟨rfl, hMarks⟩

theorem quoted_scanFrom_singleQuoted
    {text : Text}
    (h : '\x27' ∉ text)
    (w : Bool)
    (pos : Nat) :
    ∀ m ∈ scanFrom { Quoting.start with wordStart := w } pos
        (Text.singleQuoted text),
      m.role = .quoted := by
  rcases exists_scanFrom_singleQuoted h w pos [] with
    ⟨marks, pos', hScan, hMarks⟩
  rw [List.append_nil] at hScan
  rw [hScan, scanFrom, List.append_nil]
  exact hMarks

end Mark

------------------------------------------------------------
-- The Statement
------------------------------------------------------------

namespace Statement

/- The statement that prints a text in single quotes. -/
def quotedEcho
    (text : Text) : Text :=
  "echo " ++ Text.singleQuoted text

theorem quotedEcho_eq
    (text : Text) :
    quotedEcho text =
      ['e', 'c', 'h', 'o'] ++ ' ' :: Text.singleQuoted text := by
  rw [quotedEcho, Text.ofString_ofList]
  rfl

/- Text in single quotes is read, whatever it escapes. -/
theorem walk_inSingle
    {text : Text}
    (hQuote : '\x27' ∉ text)
    (hFeed : '\n' ∉ text)
    (next : Option Char)
    {r : Reader}
    (hr : r.quoting = Mark.inSingle) :
    ∃ r', r.walk next text = some r' ∧
      r'.quoting = Mark.inSingle := by
  induction text generalizing r with
  | nil => exact ⟨r, rfl, hr⟩
  | cons c rest ih =>
      simp only [List.mem_cons, not_or] at hQuote hFeed
      have hQuoting : r.quoting.step c (rest.head?.or next) =
          (.quoted, Mark.inSingle) := by
        simp [hr, Quoting.step, Mark.inSingle, Quoting.start,
          Ne.symm hQuote.1]
      rcases Reader.step_quoted (by rw [hQuoting])
        (Ne.symm hFeed.1) with ⟨glued, hStep⟩
      rw [Reader.walk, hStep, hQuoting]
      exact ih hQuote.2 hFeed.2 rfl

/- Nothing is open behind a text in single quotes. -/
theorem walk_singleQuoted
    {text : Text}
    (h : text.IsQuotable) :
    ∃ glued, Reader.walk none {} (Text.singleQuoted text) =
      some ⟨{ wordStart := false }, false, glued⟩ := by
  have hOpen (next : Option Char) :
      Reader.step {} '\x27' next =
        some { quoting := Mark.inSingle } := by
    cases next <;> rfl
  have hInSingle : ({ quoting := Mark.inSingle } :
      Reader).quoting = Mark.inSingle := rfl
  rcases walk_inSingle h.quote h.lineFeed (some '\x27')
      hInSingle with ⟨r, hInside, hr⟩
  have hClose : r.quoting.step '\x27' none =
      (.quoted, { wordStart := false }) := by
    rw [hr]
    rfl
  have hLast : ∃ glued, r.step '\x27' none = some
      ⟨{ wordStart := false }, false, glued⟩ := by
    have hQuoted : (r.quoting.step '\x27' none).1 = .quoted := by
      rw [hClose]
    rcases Reader.step_quoted hQuoted (by decide) with
      ⟨glued, hStep⟩
    rw [hClose] at hStep
    exact ⟨glued, by simpa using hStep⟩
  rcases hLast with ⟨glued, hLast⟩
  refine ⟨glued, ?_⟩
  rw [Text.singleQuoted_eq, Reader.walk, hOpen,
    Option.bind_some, Reader.walk_append]
  simp [hInside, Reader.walk, hLast]

/- The statement can be followed by a line. -/
theorem closes_quotedEcho
    {text : Text}
    (h : text.IsQuotable) :
    Closes (quotedEcho text) := by
  rcases walk_singleQuoted h with ⟨glued, hQuoted⟩
  have hEcho (next : Option Char) :
      Reader.walk next {} ['e', 'c', 'h', 'o'] =
        some { quoting := { wordStart := false } } :=
    Reader.walk_word (by simp) (by decide) rfl rfl rfl next
  have hBlank (next : Option Char) :
      Reader.step { quoting := { wordStart := false } } ' '
        next = some {} := by
    cases next <;> rfl
  refine ⟨⟨{ wordStart := false }, false, glued⟩,
    Reader.walk_opening ?_, ⟨rfl, by simp, rfl⟩⟩
  rw [quotedEcho_eq, Reader.walk_append, hEcho,
    Option.bind_some, Reader.walk, hBlank, Option.bind_some,
    hQuoted]

/- The statement starts and ends with fixed characters. -/
theorem isTrimmed_quotedEcho
    (text : Text) :
    (quotedEcho text).IsTrimmed where
  head := by
    rw [quotedEcho_eq]
    simp
    decide
  last := by
    rw [quotedEcho_eq, Text.singleQuoted_eq]
    simp [List.getLast?_append, List.getLast?_cons]
    decide

/- The statement is one, as it stands. -/
theorem ofChunk_quotedEcho
    (text : Text) :
    ofChunk (quotedEcho text) = [quotedEcho text] := by
  refine ofChunk_eq_singleton (by simp [quotedEcho_eq])
    (isTrimmed_quotedEcho text) ?_
  refine Option.eq_none_iff_forall_ne_some.mpr ?_
  rintro ⟨keyword, rest⟩ hSome
  rcases leadingKeyword?_eq_some hSome with
    ⟨hMem, b, tail, -, hText, -⟩
  have hEcho : (quotedEcho text).take 2 = ['e', 'c'] := by
    rw [quotedEcho_eq]
    rfl
  rw [hText] at hEcho
  simp only [isolatedKeywords, List.mem_cons,
    List.not_mem_nil, or_false] at hMem
  rcases hMem with rfl | rfl | rfl | rfl | rfl
  all_goals
    rw [Text.ofString_ofList] at hEcho
    simp at hEcho

/- Only the characters before the quotes are bare. -/
theorem mem_of_isBare_quotedEcho
    {text : Text}
    (h : '\x27' ∉ text)
    {m : Mark}
    (hm : m ∈ Mark.scan (quotedEcho text))
    (hBare : m.isBare = true) :
    m.ch ∈ ['e', 'c', 'h', 'o', ' '] := by
  rw [Mark.scan, quotedEcho_eq] at hm
  simp only [List.cons_append, List.nil_append] at hm
  repeat rw [Mark.scanFrom_plain rfl rfl _ (by decide)] at hm
  simp only [List.mem_cons] at hm
  rcases hm with rfl | rfl | rfl | rfl | rfl | hm
  · simp
  · simp
  · simp
  · simp
  · simp
  · have hQuoted := Mark.quoted_scanFrom_singleQuoted h _ _ m hm
    simp [Mark.isBare, hQuoted] at hBare

theorem not_isBareChar_quotedEcho
    {text : Text}
    (h : '\x27' ∉ text)
    {c : Char}
    (hc : c ∉ ['e', 'c', 'h', 'o', ' '])
    {m : Mark}
    (hm : m ∈ Mark.scan (quotedEcho text)) :
    m.isBareChar c = false := by
  refine Bool.eq_false_iff.mpr fun hBare => ?_
  simp only [Mark.isBareChar, Bool.and_eq_true,
    beq_iff_eq] at hBare
  have hMem := mem_of_isBare_quotedEcho h hm hBare.1
  rw [hBare.2] at hMem
  exact hc hMem

end Statement

------------------------------------------------------------
-- Its Form
------------------------------------------------------------

namespace Form

open Statement

/- The statement is no pipeline. -/
theorem pipeline?_quotedEcho
    {text : Text}
    (h : text.IsQuotable) :
    pipeline? (quotedEcho text) = none := by
  have hSplit : (Mark.scan (quotedEcho text)).splitOnP
      (Mark.isBareChar '|') = [Mark.scan (quotedEcho text)] :=
    List.splitOnP_eq_singleton fun m hm =>
      not_isBareChar_quotedEcho h.quote (by decide) hm
  simp [pipeline?, Pipeline.stages?, Pipeline.parts, hSplit]

/- The statement is an echo of the text in its quotes. -/
theorem echo?_quotedEcho
    {text : Text}
    (h : text.IsQuotable) :
    echo? (quotedEcho text) =
      some (.echo (some (Text.singleQuoted text))) := by
  have hDollar : Text.occursIn "$((" (quotedEcho text) =
      false := by
    have hPart := h.dollar
    rw [Text.ofString_ofList] at hPart
    rw [Text.ofString_ofList, quotedEcho_eq]
    simp only [List.cons_append, List.nil_append]
    repeat rw [Text.occursIn_cons (by decide)]
    rw [Text.occursIn_singleQuoted (by decide)]
    exact Text.occursIn_of_isPrefix ⟨['('], rfl⟩ hPart
  have hJob : endsInBackground (quotedEcho text) = false := by
    rw [endsInBackground]
    cases hLast : (Mark.scan (quotedEcho text)).getLast? with
    | none => rfl
    | some m =>
        exact not_isBareChar_quotedEcho h.quote (by decide)
          (List.mem_of_getLast? hLast)
  have hLead : Text.dropLead? "echo" (quotedEcho text) =
      some (' ' :: Text.singleQuoted text) := by
    rw [Text.dropLead?_eq_some_iff, Text.ofString_ofList,
      quotedEcho_eq]
  have hTrim : Text.trimStart (' ' :: Text.singleQuoted text) =
      Text.singleQuoted text := by
    rw [Text.singleQuoted_eq]
    rfl
  have hLine : Text.onOneLine (Text.singleQuoted text) = true := by
    rw [Text.singleQuoted_eq, Text.onOneLine, List.all_eq_true]
    intro c hc
    have hFeed : c ≠ '\n' := by
      rintro rfl
      simp [h.lineFeed] at hc
    simpa using hFeed
  have hRest : Pattern.restOfLine?
      (' ' :: Text.singleQuoted text) =
        some (Text.singleQuoted text) := by
    rw [Pattern.restOfLine?, hTrim, hLine]
    rfl
  rw [echo?, hDollar, hJob]
  simp [Pattern.keyword?, hLead, Pattern.optional?, hRest]

/- The form of the statement. -/
theorem ofText_quotedEcho
    {text : Text}
    (h : text.IsQuotable) :
    ofText (quotedEcho text) =
      .echo (some (Text.singleQuoted text)) := by
  have hStart : ((quotedEcho text).isEmpty ||
      (quotedEcho text).head? == some '#') = false := by
    simp [quotedEcho_eq]
  rw [ofText, hStart]
  simp only [rules, List.findSome?_cons,
    pipeline?_quotedEcho h, echo?_quotedEcho h]
  rfl

end Form

namespace Command

open Statement

/- The statement is trimmed already. -/
theorem trimStatement_quotedEcho
    (text : Text) :
    trimStatement (quotedEcho text) = quotedEcho text := by
  have hTrim := Text.trim_of_isTrimmed (isTrimmed_quotedEcho text)
  have hTail : Text.dropTail? ";" (quotedEcho text) = none := by
    refine Option.eq_none_iff_forall_ne_some.mpr fun rest h => ?_
    have hText := Text.dropTail?_eq_some_iff.mp h
    rw [Text.ofString_ofList] at hText
    have hLast := congrArg List.getLast? hText
    rw [quotedEcho_eq, Text.singleQuoted_eq] at hLast
    simp [List.getLast?_append, List.getLast?_cons] at hLast
  rw [trimStatement, hTrim, hTail]

theorem ofText_quotedEcho
    {text : Text}
    (h : text.IsQuotable) :
    ofText (quotedEcho text) =
      ⟨quotedEcho text,
        .echo (some (Text.singleQuoted text))⟩ := by
  rw [ofText, trimStatement_quotedEcho,
    Form.ofText_quotedEcho h]

end Command

------------------------------------------------------------
-- What It Writes
------------------------------------------------------------

namespace Word

/- Taking the quotes away protects what stands in them. -/
theorem unquote_singleQuoted
    {text : Text}
    (h : '\x27' ∉ text) :
    unquote (Text.singleQuoted text) =
      text.flatMap protect := by
  have hInside : unquoteFrom .single (text ++ ['\x27']) =
      text.flatMap protect := by
    induction text with
    | nil => simp [unquoteFrom]
    | cons c rest ih =>
        simp only [List.mem_cons, not_or] at h
        simp [unquoteFrom, Ne.symm h.1, ih h.2]
  rw [unquote, Text.singleQuoted_eq, ← hInside]
  simp [unquoteFrom]

/- A text in single quotes is one word. -/
theorem split_singleQuoted
    {text : Text}
    (h : '\x27' ∉ text) :
    split (Text.singleQuoted text) =
      [Text.singleQuoted text] := by
  have hSplit : (Mark.scan (Text.singleQuoted text)).splitOnP
      Mark.isBareBlank =
        [Mark.scan (Text.singleQuoted text)] := by
    refine List.splitOnP_eq_singleton fun m hm => ?_
    have hQuoted := Mark.quoted_scanFrom_singleQuoted h true 0 m
      hm
    simp [Mark.isBareBlank, Mark.isBare, hQuoted]
  have hChars : Mark.chars (Mark.scan (Text.singleQuoted text)) =
      Text.singleQuoted text := Mark.chars_scanFrom _ _ _
  rw [split, hSplit, List.map_singleton, hChars,
    Text.singleQuoted_eq]
  rfl

end Word

namespace Template

/- A text in single quotes stands for itself. -/
theorem ofWord_singleQuoted
    {text : Text}
    (h : '\x27' ∉ text) :
    ofWord (Text.singleQuoted text) = .literal text := by
  rw [ofWord, Word.unquote_singleQuoted h]
  exact resolve_eq_literal
    (Reference.atoms_flatMap_protect .fill text)

end Template

namespace Pipeline

/- Without bare characters there are no operators. -/
theorem hasPair_eq_false
    {marks : List Mark}
    (h : ∀ m ∈ marks, m.isBare = false) :
    hasPair marks = false := by
  induction marks with
  | nil => rfl
  | cons m marks ih =>
      cases marks with
      | nil => rfl
      | cons n marks =>
          rw [hasPair, ih fun k hk => h k (by simp [hk])]
          simp [Mark.isBareChar, h m (by simp)]

end Pipeline

namespace Event

/- The text in the quotes is printed as it is. -/
theorem echo_singleQuoted
    {text : Text}
    (h : text.IsQuotable) :
    echo (Text.singleQuoted text) =
      .ok (lines 0 [.printLine text, .succeed]) := by
  have hQuoted : ∀ m ∈ Mark.scan (Text.singleQuoted text),
      m.role = .quoted :=
    Mark.quoted_scanFrom_singleQuoted h.quote true 0
  have hRedirection :
      Pipeline.hasRedirection (Text.singleQuoted text) =
        false := by
    rw [Pipeline.hasRedirection, List.any_eq_false]
    intro m hm
    simp [Mark.isBareChar, Mark.isBare, hQuoted m hm]
  have hList :
      Pipeline.hasListOperator (Text.singleQuoted text) =
        false :=
    Pipeline.hasPair_eq_false fun m hm => by
      simp [Mark.isBare, hQuoted m hm]
  have hWord := Template.ofWord_singleQuoted h.quote
  have hFirst : Text.singleQuoted text ≠ "-n" := by
    rw [Text.ofString_ofList, Text.singleQuoted_eq]
    simp
  rw [echo, hRedirection, hList, h.mentionsSubstitution,
    Word.split_singleQuoted h.quote]
  simp [hFirst, printWords, hWord, Template.join,
    Template.isLiteral, Template.text, Text.joinWith, print,
    printLine]

end Event

------------------------------------------------------------
-- Scripts
------------------------------------------------------------

namespace Text

/- Lines that are ended are separated lines with an empty one behind. -/
theorem flatMap_lineFeed
    (lines : List Text) :
    (lines.flatMap fun line => line ++ ['\n']) =
      joinWith ['\n'] (lines ++ [[]]) := by
  induction lines with
  | nil => rfl
  | cons line lines ih =>
      rw [List.flatMap_cons, ih]
      cases lines <;>
        simp [joinWith, List.intercalate_cons_cons]

end Text

namespace Statement

/- Each of the lines is a statement, whether they are separated or ended. -/
theorem texts_quotedEchos
    {texts : List Text}
    (hTexts : ∀ text ∈ texts, text.IsQuotable)
    {script : Text}
    (hScript :
      script = Text.joinWith "\n" (texts.map quotedEcho) ∨
      script = texts.flatMap fun text =>
        quotedEcho text ++ ['\n']) :
    Statement.texts script = texts.map quotedEcho := by
  have hCloses : ∀ line ∈ texts.map quotedEcho,
      Closes line := by
    intro line hLine
    rcases List.mem_map.mp hLine with ⟨text, hText, rfl⟩
    exact closes_quotedEcho (hTexts text hText)
  have hReads : ∀ line ∈ texts.map quotedEcho, Reads line :=
    fun line hLine => (hCloses line hLine).reads
  have hChunks : (texts.map quotedEcho).flatMap ofChunk =
      texts.map quotedEcho := by
    rw [List.flatMap_map, List.map_eq_flatMap]
    simp only [ofChunk_quotedEcho]
  rcases hScript with rfl | rfl
  · rw [Text.ofString_ofList, texts_joinWith hReads
      fun line hLine => hCloses line (List.dropLast_subset _ hLine),
      hChunks]
  · have hEnded := Text.flatMap_lineFeed (texts.map quotedEcho)
    rw [List.flatMap_map] at hEnded
    rw [hEnded, texts_joinWith, List.flatMap_append, hChunks]
    · simp [ofChunk_nil]
    · intro line hLine
      rcases List.mem_append.mp hLine with hLine | hLine
      · exact hReads line hLine
      · rw [List.mem_singleton.mp hLine]
        exact ⟨_, rfl⟩
    · simpa using hCloses

end Statement

namespace Event

------------------------------------------------------------
-- Written Lines
------------------------------------------------------------

/- Written lines open and close no blocks. -/
theorem stackAll_lines
    (blocks : List Frame)
    (extra : Nat)
    (ls : List Line) :
    stackAll blocks (lines extra ls) = blocks := by
  induction ls with
  | nil => rfl
  | cons line ls ih => exact ih

/- The rows of written lines are the lines. -/
theorem rowsAll_lines
    (file : Text)
    (blocks : List Frame)
    (extra : Nat)
    (ls : List Line) :
    rowsAll file blocks (lines extra ls) =
      ls.map fun line => ⟨blocks.length + 1 + extra, line⟩ := by
  induction ls with
  | nil => rfl
  | cons line ls ih => exact congrArg (_ :: ·) ih

/- Written lines report nothing. -/
theorem reports_lines
    (extra : Nat)
    (ls : List Line) :
    (lines extra ls).flatMap reports = [] := by
  simp [lines, List.flatMap_map, reports]

/- Written lines need what each of them needs. -/
theorem needs_lines
    (extra : Nat)
    (ls : List Line) :
    (lines extra ls).flatMap needs = ls.flatMap Line.needs := by
  simp [lines, List.flatMap_map, needs]

end Event

namespace Command

/- What the statements write, one after the other. -/
theorem eventsAll_quotedEchos
    {texts : List Text}
    (hTexts : ∀ text ∈ texts, text.IsQuotable)
    {statements : List Statement}
    (hStatements : statements.map Statement.text =
      texts.map Statement.quotedEcho)
    (blocks : List Frame)
    (loops : Nat) :
    eventsAll blocks loops (statements.map fun statement =>
        (statement.line, ofText statement.text)) =
      Event.lines 0 (texts.flatMap fun text =>
        [.printLine text, .succeed]) := by
  induction texts generalizing statements loops with
  | nil =>
      rw [List.map_eq_nil_iff.mp hStatements]
      rfl
  | cons text texts ih =>
      rcases List.map_eq_cons_iff.mp hStatements with
        ⟨statement, rest, rfl, hText, hRest⟩
      have hQuotable := hTexts text (by simp)
      have hEvents : (ofText statement.text).events blocks loops
          statement.line =
            Event.lines 0 [.printLine text, .succeed] := by
        rw [hText, ofText_quotedEcho hQuotable]
        simp [events, Event.echo_singleQuoted hQuotable,
          Event.orFail]
      have hBehind := ih
        (fun text hText => hTexts text (by simp [hText])) hRest
        (loops + Event.loopsAll (Event.lines 0
          [.printLine text, .succeed]))
      rw [List.map_cons, eventsAll, hEvents,
        Event.stackAll_lines, hBehind]
      rfl

/- Nothing is left to be closed at the end of the script. -/
theorem eventsToEnd_quotedEchos
    {texts : List Text}
    (hTexts : ∀ text ∈ texts, text.IsQuotable)
    {script : Text}
    (hScript : Statement.texts script =
      texts.map Statement.quotedEcho) :
    eventsToEnd [] 0 (ofScript script) =
      Event.lines 0 (texts.flatMap fun text =>
        [.printLine text, .succeed]) := by
  rw [eventsToEnd, ofScript, eventsAll_quotedEchos hTexts hScript,
    Event.stackAll_lines]
  exact List.append_nil _

end Command

namespace Draft

/-
  A script that prints texts in single quotes, each on a line
  of its own, is written without reports and helpers, and
  each text becomes the two lines that print it and succeed.
-/
theorem ofScript_quotedEchos
    (file unit : Text)
    (texts : List Text)
    (hTexts : ∀ text ∈ texts, text.IsQuotable)
    (script : Text)
    (hScript :
      script = Text.joinWith "\n"
        (texts.map Statement.quotedEcho) ∨
      script = texts.flatMap fun text =>
        Statement.quotedEcho text ++ ['\n']) :
    let draft := ofScript file unit script
    draft.diagnostics = #[] ∧ draft.usage = .empty ∧
      draft.body = texts.flatMap fun text : Text =>
        (unit ++ "puts(" ++ Literal.quote text ++ ");\n" ++
          unit ++ "last_status = 0;\n" : Text) := by
  have hEvents := Command.eventsToEnd_quotedEchos hTexts
    (Statement.texts_quotedEchos hTexts hScript)
  rcases ofScript_eq file unit script with ⟨log, hDraft⟩
  rw [finish_addCommands_eq_extend] at hDraft
  simp only [start, hEvents] at hDraft
  have hNeeds : (texts.flatMap fun text =>
      [Line.printLine text, .succeed]).flatMap Line.needs =
        [] := by
    rw [List.flatMap_assoc]
    simp [Line.needs]
  have hRow (text : Text) :
      Row.render unit ⟨1, .printLine text⟩ ++
          Row.render unit ⟨1, .succeed⟩ =
        (unit ++ "puts(" ++ Literal.quote text ++ ");\n" ++
          unit ++ "last_status = 0;\n" : Text) := by
    simp only [Row.render, Line.render, Line.statusText,
      statusVariable, callText]
    repeat rw [Text.ofString_ofList]
    simp [Text.repeated]
  rw [hDraft]
  refine ⟨?_, ?_, ?_⟩
  · refine Array.toList_inj.mp ?_
    simp [Event.reports_lines]
  · simp [Event.needs_lines, hNeeds, Usage.requireAll]
  · simp only [body, toList_rows_extend, unit_extend,
      Event.rowsAll_lines]
    simp [List.map_flatMap, List.flatMap_assoc, hRow]

/- Operators, comments, references, directives and escapes in quotes. -/
theorem ofScript_quotedEchos_special :
    let texts : List Text :=
      ["if $x; then a & b | c && d > e; fi # f", "%s ?? \"\\", ""]
    let draft := ofScript "a.sh" "  " (Text.joinWith "\n"
      (texts.map Statement.quotedEcho))
    (∀ text ∈ texts, text.IsQuotable) ∧
      draft.diagnostics = #[] ∧ draft.usage = .empty ∧
      draft.body = texts.flatMap fun text : Text =>
        ("  " ++ "puts(" ++ Literal.quote text ++ ");\n" ++
          "  " ++ "last_status = 0;\n" : Text) := by
  intro texts draft
  have hTexts : ∀ text ∈ texts, text.IsQuotable := by
    simp only [texts]
    repeat rw [Text.ofString_ofList]
    decide +kernel
  exact ⟨hTexts, ofScript_quotedEchos "a.sh" "  " texts hTexts _
    (Or.inl rfl)⟩

end Draft

end ShellToC
