import ShellToC.Proofs.FilledFormats
import ShellToC.Proofs.QuotedRuns
import ShellToC.Proofs.QuotingStep
import ShellToC.Proofs.TestMeaning

/-
  This file follows an echo to what its line writes.

  The line is read back from its text.  Its literal is
  decoded and ends before the first null character, as a
  string of C does, and a format is filled in with the values
  that stand behind it.  What is written then is what the
  words of the echo stand for, with a space between
  neighbours, whether or not the words became a format.

  Key definitions include:
    * `Literal.string?`
    * `Lexeme.values?`
    * `Lexeme.written?`
    * `Word.echoed`
    * `Word.echoEnd`

  Main declarations:
    * `Template.filled?_join`
    * `Event.written?_printLine`
    * `Event.echo_writes_words`
-/

namespace ShellToC

------------------------------------------------------------
-- Strings of C
------------------------------------------------------------

namespace Literal

/-
  The string that a literal stands for, given the text
  between its quotes.  It ends before the first null
  character.
-/
def string?
    (inside : Text) : Option Text :=
  (decode? inside).map (·.takeWhile (· != '\x00'))

/- A text without null characters is the string of its literal. -/
theorem string?_escapeFrom
    {text : Text}
    (h : '\x00' ∉ text) :
    string? (escapeFrom false text) = some text := by
  have hAll : ∀ c ∈ text, (c != '\x00') = true := by
    intro c hc
    simpa using fun hNull : c = '\x00' => h (hNull ▸ hc)
  have hWhole : (text ++ []).takeWhile (· != '\x00') =
      text ++ [].takeWhile (· != '\x00') :=
    List.takeWhile_append_of_pos hAll
  rw [List.append_nil, List.takeWhile_nil, List.append_nil] at hWhole
  rw [string?, decode?_escapeFrom, Option.map_some, hWhole]

end Literal

------------------------------------------------------------
-- What Statements Write
------------------------------------------------------------

namespace Lexeme

/-
  The values behind a format, up to the end of the
  statement: variables of the script, and the two integers
  that a program keeps.
-/
def values? : List Lexeme → Option (List Argument)
  | [.sign ')', .sign ';'] => some []
  | .sign ',' :: .word w :: rest =>
      if w = statusVariable then
        (values? rest).map (.status :: ·)
      else if w = jobVariable then
        (values? rest).map (.backgroundPid :: ·)
      else if w = Helper.var.name then
        match rest with
        | .sign '(' :: .literal '\x22' inside :: .sign ')' :: rest =>
            (Literal.string? inside).bind fun name =>
              (values? rest).map (.var name :: ·)
        | _ => none
      else
        none
  | _ => none

/-
  What a statement writes to the standard output, if it is
  one that prints a string or a format.
-/
def written?
    (env : Environment) : List Lexeme → Option Text
  | .word function :: .sign '(' :: .literal '\x22' inside :: rest =>
      (Literal.string? inside).bind fun text =>
        if function = "puts" ∧ rest = [.sign ')', .sign ';'] then
          some (text ++ ['\n'])
        else if function = "fputs" ∧
            rest = [.sign ',', .word "stdout", .sign ')',
              .sign ';'] then
          some text
        else if function = "printf" then
          (FormatPart.ofFormat? text).bind fun parts =>
            (values? rest).bind (FormatPart.filled? env parts)
        else
          none
  | _ => none

/- A value is read back before the values behind it. -/
theorem values?_cons
    {arg : Argument}
    (h : ∀ name, arg = .var name → '\x00' ∉ name)
    (rest : List Lexeme) :
    values? (.sign ',' ::
        (FormatArg.ofArgument arg).lexemes ++ rest) =
      (values? rest).map (arg :: ·) := by
  cases arg with
  | var name =>
      have hStatus : Helper.var.name ≠ statusVariable := by
        simp [Helper.name, statusVariable, Text.ofString_inj]
      have hJob : Helper.var.name ≠ jobVariable := by
        simp [Helper.name, jobVariable, Text.ofString_inj]
      simp [FormatArg.ofArgument, FormatArg.lexemes,
        StringExpr.lexemes, call, quoted, values?, hStatus, hJob,
        Literal.string?_escapeFrom (h name rfl)]
  | status =>
      rw [values?.eq_def]
      simp [FormatArg.ofArgument, FormatArg.lexemes]
  | backgroundPid =>
      have hStatus : jobVariable ≠ statusVariable := by
        simp [jobVariable, statusVariable, Text.ofString_inj]
      rw [values?.eq_def]
      simp [FormatArg.ofArgument, FormatArg.lexemes, hStatus]

/- The values of a call are read back. -/
theorem values?_flatMap
    {args : List Argument}
    (h : ∀ name, .var name ∈ args → '\x00' ∉ name) :
    values? (args.flatMap (fun arg =>
        .sign ',' :: (FormatArg.ofArgument arg).lexemes) ++
          [.sign ')', .sign ';']) =
      some args := by
  induction args with
  | nil => rfl
  | cons arg args ih =>
      have hRest := ih fun name hName =>
        h name (List.mem_cons_of_mem _ hName)
      rw [List.flatMap_cons, List.append_assoc,
        values?_cons fun name hArg => h name (by simp [hArg]), hRest]
      rfl

end Lexeme

------------------------------------------------------------
-- Joined Templates
------------------------------------------------------------

/- Formats side by side are filled in one after the other. -/
theorem FormatPart.filled?_append
    {env : Environment}
    {a : List FormatPart}
    {args : List Argument}
    {text : Text}
    (h : filled? env a args = some text)
    (b : List FormatPart)
    (more : List Argument) :
    filled? env (a ++ b) (args ++ more) =
      (filled? env b more).map (text ++ ·) := by
  fun_induction filled? env a args generalizing text with
  | case1 =>
      cases h
      simp
  | case2 c parts args ih =>
      rcases Option.map_eq_some_iff.mp h with ⟨mid, hMid, rfl⟩
      simp [filled?, ih hMid, Function.comp_def]
  | case3 parts arg args ih =>
      rcases Option.map_eq_some_iff.mp h with ⟨mid, hMid, rfl⟩
      simp [filled?, ih hMid, Function.comp_def]
  | case4 => contradiction
  | case5 => contradiction

namespace Template

theorem filled?_format_append
    {env : Environment}
    {format : Text}
    {args : List Argument}
    {text : Text}
    (h : (Template.format format args).filled? env = some text)
    (more : Text)
    (others : List Argument) :
    (Template.format (format ++ more) (args ++ others)).filled?
        env =
      ((Template.format more others).filled? env).map
        (text ++ ·) := by
  rcases Option.bind_eq_some_iff.mp h with
    ⟨parts, hParts, hText⟩
  rw [filled?, filled?, FormatPart.ofFormat?_append hParts]
  cases FormatPart.ofFormat? more with
  | none => rfl
  | some rest => exact FormatPart.filled?_append hText rest others

/- The format that prints a template stands for the same text. -/
theorem filled?_formatText
    (env : Environment)
    (template : Template) :
    (format template.formatText template.args).filled? env =
      template.filled? env := by
  cases template with
  | literal text =>
      have hText : (literal text).Denotes (text.map .char) := rfl
      rw [filled?, filled?, hText.ofFormat?_formatText, hText.args_eq,
        Option.bind_some, FormatPart.filled?_map_part,
        Atom.textOf_map_char]
  | format text args => rfl

/- The format of joined templates stands for their texts. -/
theorem filled?_joinWith
    {env : Environment}
    (separator : Text)
    {parts : List Template}
    {texts : List Text}
    (h : parts.map (·.filled? env) = texts.map some) :
    (format (Text.joinWith (escapePercent separator)
        (parts.map formatText)) (parts.flatMap args)).filled? env =
      some (Text.joinWith separator texts) := by
  induction parts generalizing texts with
  | nil =>
      cases texts with
      | nil => rfl
      | cons text texts => cases h
  | cons part parts ih =>
      cases texts with
      | nil => cases h
      | cons text texts =>
          rw [List.map_cons, List.map_cons, List.cons.injEq] at h
          have hFirst := (filled?_formatText env part).trans h.1
          have hRest := ih h.2
          cases parts with
          | nil =>
              cases texts with
              | nil => simpa [Text.joinWith] using hFirst
              | cons next texts => cases h.2
          | cons other parts =>
              cases texts with
              | nil => cases h.2
              | cons next texts =>
                  have hSeparator : (format
                      (escapePercent separator) []).filled? env =
                        some separator :=
                    filled?_formatText env (.literal separator)
                  have hTail := filled?_format_append hSeparator
                    (Text.joinWith (escapePercent separator)
                      ((other :: parts).map formatText))
                    ((other :: parts).flatMap args)
                  have hAll := filled?_format_append hFirst
                    (escapePercent separator ++
                      Text.joinWith (escapePercent separator)
                        ((other :: parts).map formatText))
                    ([] ++ (other :: parts).flatMap args)
                  rw [hTail, hRest] at hAll
                  simpa [Text.joinWith] using hAll

/-
  Joined templates stand for the texts that each of them
  stands for, with the separator between neighbours.
-/
theorem filled?_join
    {env : Environment}
    (separator : Text)
    {parts : List Template}
    {texts : List Text}
    (h : parts.map (·.filled? env) = texts.map some) :
    (join separator parts).filled? env =
      some (Text.joinWith separator texts) := by
  rw [join]
  split
  next hLiteral =>
    have hTexts : (parts.map text).map some = texts.map some := by
      rw [← h, List.map_map]
      refine List.map_congr_left fun part hPart => ?_
      have hPart := List.all_eq_true.mp hLiteral part hPart
      cases part with
      | literal text => rfl
      | format text args => cases hPart
    rw [(List.map_inj_right fun _ _ => Option.some.inj).mp hTexts]
    rfl
  next => exact filled?_joinWith separator h

end Template

------------------------------------------------------------
-- Null Characters
------------------------------------------------------------

/- A character that is written for itself is a part of its own. -/
theorem FormatPart.char_mem_of_ofFormat?
    {format : Text}
    {parts : List FormatPart}
    (h : ofFormat? format = some parts)
    {c : Char}
    (hc : c ∉ ['%', 's', 'd', 'l'])
    (hMem : c ∈ format) :
    .char c ∈ parts := by
  simp only [List.mem_cons, List.not_mem_nil, or_false,
    not_or] at hc
  fun_induction ofFormat? format generalizing parts with
  | case1 => cases hMem
  | case2 rest ih | case3 rest ih | case4 rest ih
  | case5 rest ih =>
      rcases Option.map_eq_some_iff.mp h with ⟨mid, hMid, rfl⟩
      refine List.mem_cons_of_mem _ (ih hMid ?_)
      simpa [hc] using hMem
  | case6 => contradiction
  | case7 d rest _ _ _ _ _ ih =>
      rcases Option.map_eq_some_iff.mp h with ⟨mid, hMid, rfl⟩
      rcases List.mem_cons.mp hMem with rfl | hMem
      · exact List.mem_cons_self
      · exact List.mem_cons_of_mem _ (ih hMid hMem)

namespace Atom

/- The atom is no null character, and names none. -/
def LacksNull : Atom → Prop
  | .char c => c ≠ '\x00'
  | .value (.var name) => '\x00' ∉ name
  | .value _ => True

end Atom

namespace Template

/- A template has the null characters that it denotes. -/
theorem Denotes.not_mem_text
    {template : Template}
    {atoms : List Atom}
    (h : template.Denotes atoms)
    (hNull : ∀ atom ∈ atoms, atom.LacksNull) :
    '\x00' ∉ template.text := by
  intro hMem
  cases template with
  | literal text =>
      rw [show atoms = text.map .char from h] at hNull
      exact hNull _ (List.mem_map_of_mem hMem) rfl
  | format text args =>
      have hPart := FormatPart.char_mem_of_ofFormat? h.1
        (by decide) hMem
      rcases List.mem_map.mp hPart with ⟨atom, hAtom, hChar⟩
      cases atom with
      | char c =>
          cases hChar
          exact hNull _ hAtom rfl
      | value arg => cases hChar

/- The variables of a template are those that it denotes. -/
theorem Denotes.not_mem_name
    {template : Template}
    {atoms : List Atom}
    (h : template.Denotes atoms)
    (hNull : ∀ atom ∈ atoms, atom.LacksNull)
    {name : Text}
    (hName : .var name ∈ template.args) :
    '\x00' ∉ name := by
  rw [h.args_eq] at hName
  rcases List.mem_filterMap.mp hName with ⟨atom, hAtom, hValue⟩
  cases atom with
  | char c => cases hValue
  | value arg =>
      cases hValue
      exact hNull _ hAtom

end Template

/- What holds of every atom of the parts holds of them joined. -/
theorem Atom.forall_mem_intercalate
    {P : Atom → Prop}
    {separator : List Atom}
    (hSeparator : ∀ atom ∈ separator, P atom)
    {parts : List (List Atom)}
    (h : ∀ part ∈ parts, ∀ atom ∈ part, P atom) :
    ∀ atom ∈ List.intercalate separator parts, P atom := by
  induction parts with
  | nil => simp [List.intercalate]
  | cons part parts ih =>
      rw [List.forall_mem_cons] at h
      have hRest := ih h.2
      cases parts with
      | nil => simpa using h.1
      | cons next parts =>
          rw [List.intercalate_cons_cons, List.forall_mem_append,
            List.forall_mem_append]
          exact ⟨⟨h.1, hSeparator⟩, hRest⟩

/- The characters that a text denotes are its own. -/
theorem Reference.mem_of_char_mem_atoms
    {text : Text}
    {c : Char}
    (h : .char c ∈ atoms .fill text) :
    c ∈ text := by
  fun_induction atoms .fill text with
  | case1 text ref after hHead ih =>
      rw [← spelling_append_of_atHead? hHead]
      rcases List.mem_append.mp h with hRef | hAfter
      · refine List.mem_append_left _ ?_
        cases ref with
        | escaped d =>
            have hd : c = d := by
              simpa [Fragment.ofReference, Fragment.atoms] using hRef
            simp [spelling, hd]
        | braced name | named name =>
            simp [Fragment.ofReference, Fragment.ofName,
              Fragment.atoms] at hRef
        | status | backgroundPid =>
            simp [Fragment.ofReference, Fragment.atoms] at hRef
      · exact List.mem_append_right _ (ih hAfter)
  | case2 => simp at h
  | case3 d rest hHead ih =>
      rcases List.mem_cons.mp h with hChar | hRest
      · cases hChar
        exact List.mem_cons_self
      · exact List.mem_cons_of_mem _ (ih hRest)

namespace Word

/- Protection adds backslashes and nothing else. -/
theorem mem_protect
    {c d : Char}
    (h : c ∈ protect d) :
    c = d ∨ c = '\x5c' := by
  rw [protect] at h
  split at h <;> simp_all [or_comm]

theorem mem_unescape
    {quote : Quote}
    {c d : Char}
    (h : c ∈ unescape quote d) :
    c = d ∨ c = '\x5c' := by
  rw [unescape] at h
  split at h
  · exact mem_protect h
  · rcases List.mem_append.mp h with h | h
    · exact Or.inr (by simpa using mem_protect h)
    · exact mem_protect h

theorem mem_unquoteFrom
    {quote : Quote}
    {word : Text}
    {c : Char}
    (h : c ∈ unquoteFrom quote word) :
    c ∈ word ∨ c = '\x5c' := by
  fun_induction unquoteFrom quote word with
  | case1 => cases h
  | case2 rest ih | case6 rest ih | case7 rest ih
  | case8 rest ih =>
      exact (ih h).imp_left (List.mem_cons_of_mem _)
  | case3 d rest _ ih =>
      rcases List.mem_append.mp h with h | h
      · exact (mem_protect h).imp_left fun hd => by simp [hd]
      · exact (ih h).imp_left (List.mem_cons_of_mem _)
  | case4 => exact Or.inr (by simpa using mem_protect h)
  | case5 quote d rest _ ih =>
      rcases List.mem_append.mp h with h | h
      · exact (mem_unescape h).imp_left fun hd => by simp [hd]
      · exact (ih h).imp_left fun hRest => by simp [hRest]
  | case9 quote d rest _ _ _ _ _ _ ih =>
      rcases List.mem_cons.mp h with h | h
      · exact Or.inl (h ▸ List.mem_cons_self)
      · exact (ih h).imp_left (List.mem_cons_of_mem _)

/- A word without null characters denotes none. -/
theorem lacksNull_atoms
    {word : Text}
    (h : '\x00' ∉ word) :
    ∀ atom ∈ Reference.atoms .fill (unquote word),
      atom.LacksNull := by
  intro atom hAtom
  match atom with
  | .char c =>
      rintro rfl
      rcases mem_unquoteFrom
          (Reference.mem_of_char_mem_atoms hAtom) with hWord | hSlash
      · exact h hWord
      · cases hSlash
  | .value (.var name) =>
      intro hMem
      have hName := List.all_eq_true.mp
        (Text.all_isNameChar_of_isName
          (Reference.isName_of_mem_atoms hAtom)) _ hMem
      cases hName
  | .value .status | .value .backgroundPid => trivial

end Word

------------------------------------------------------------
-- Printed Templates
------------------------------------------------------------

namespace Event

open Lexeme

/- A line that prints a format writes what it denotes. -/
theorem written?_printFormat
    {format : Text}
    {args : List Argument}
    {atoms : List Atom}
    (h : (Template.format format args).Denotes atoms)
    (hNull : ∀ atom ∈ atoms, atom.LacksNull)
    (env : Environment) :
    written? env (ofText
        (Line.printFormat (.ofTemplate format args)).render) =
      some (Atom.textOf env atoms) := by
  have hLegible : (Line.printFormat
      (.ofTemplate format args)).IsLegible := trivial
  have hFormat : Literal.string?
      (Literal.escapeFrom false format) = some format :=
    Literal.string?_escapeFrom (h.not_mem_text hNull)
  have hValues : values? (args.flatMap (fun arg =>
      .sign ',' :: (FormatArg.ofArgument arg).lexemes) ++
        [.sign ')', .sign ';']) = some args :=
    values?_flatMap fun _ => h.not_mem_name hNull
  have hFilled : ((FormatPart.ofFormat? format).bind fun parts =>
      FormatPart.filled? env parts args) =
        some (Atom.textOf env atoms) :=
    h.filled?_eq env
  have hPuts : Text.ofString "printf" ≠ "puts" := by
    simp [Text.ofString_inj]
  have hFputs : Text.ofString "printf" ≠ "fputs" := by
    simp [Text.ofString_inj]
  rw [(Line.readsWhole_render hLegible).ofText_eq, Line.lexemes,
    FormatCall.lexemes, call, listed_cons]
  simp [FormatCall.ofTemplate, quoted, written?,
    List.flatMap_map, hFormat, hPuts, hFputs, hValues, hFilled]

/-
  A line that prints a template writes what the template
  denotes, with a line feed behind it if one is asked for.
-/
theorem written?_printLine
    {template : Template}
    {atoms : List Atom}
    (h : template.Denotes atoms)
    (hNull : ∀ atom ∈ atoms, atom.LacksNull)
    (env : Environment)
    (newline : Bool) :
    written? env (ofText (printLine newline template).render) =
      some (Atom.textOf env atoms ++
        if newline then ['\n'] else []) := by
  cases template with
  | literal text =>
      have hText : Literal.string?
          (Literal.escapeFrom false text) = some text :=
        Literal.string?_escapeFrom (h.not_mem_text hNull)
      have hAtoms : atoms = text.map .char := h
      have hFputs : Text.ofString "fputs" ≠ "puts" := by
        simp [Text.ofString_inj]
      have hStdout : ofText ", stdout" =
          [.sign ',', .word "stdout"] := by
        rw [Text.ofString_ofList, Text.ofString_ofList]
        rfl
      have hLegible :
          (printLine newline (.literal text)).IsLegible := by
        cases newline <;> trivial
      rw [(Line.readsWhole_render hLegible).ofText_eq, hAtoms,
        Atom.textOf_map_char]
      cases newline with
      | false =>
          simp [printLine, Line.lexemes, call, quoted, written?,
            hText, hFputs, hStdout]
      | true =>
          simp [printLine, Line.lexemes, call, quoted, written?,
            hText]
  | format format args =>
      cases newline with
      | false =>
          simpa [printLine] using written?_printFormat h hNull env
      | true =>
          have hFeed : ∀ atom ∈ atoms ++ [.char '\n'],
              atom.LacksNull :=
            List.forall_mem_append.mpr
              ⟨hNull, by simp [Atom.LacksNull]⟩
          simpa [printLine, Atom.textOf, Atom.textIn] using
            written?_printFormat h.format_lineFeed hFeed env

end Event

------------------------------------------------------------
-- Echo
------------------------------------------------------------

namespace Word

/- The words that an echo prints.  A leading `-n` is no such word. -/
def echoed
    (words : List Text) : List Text :=
  if words.head? = some (Text.ofString "-n") then
    words.tail
  else
    words

/- What an echo prints behind its words.  With `-n`, it is nothing. -/
def echoEnd
    (words : List Text) : Text :=
  if words.head? = some (Text.ofString "-n") then [] else ['\n']

theorem mem_of_mem_echoed
    {words : List Text}
    {word : Text}
    (h : word ∈ echoed words) :
    word ∈ words := by
  rw [echoed] at h
  split at h
  · exact List.mem_of_mem_tail h
  · exact h

end Word

namespace Event

open Lexeme

/- An echo that is accepted prints its words. -/
theorem eq_of_echo
    {args : Text}
    {events : List Event}
    (h : echo args = .ok events) :
    ∃ newline : Bool,
      (if newline then ['\n'] else []) =
        Word.echoEnd (Word.split args) ∧
      events = printWords newline
        (Word.echoed (Word.split args)) := by
  unfold echo at h
  split at h
  · contradiction
  split at h
  · contradiction
  split at h
  · contradiction
  split at h
  next hSplit =>
    cases h
    exact ⟨true, by simp [hSplit, Word.echoEnd],
      by simp [hSplit, Word.echoed]⟩
  next first rest hSplit =>
    split at h
    next hFirst =>
      cases h
      exact ⟨false, by simp [hSplit, hFirst, Word.echoEnd],
        by simp [hSplit, hFirst, Word.echoed]⟩
    next hFirst =>
      cases h
      exact ⟨true, by simp [hSplit, hFirst, Word.echoEnd],
        by simp [hSplit, hFirst, Word.echoed]⟩

/-
  An echo writes what its words stand for, with a space
  between neighbours, and a line feed unless `-n` leads.  The
  words are joined as templates first, and joining templates
  is joining their texts, whatever the templates are.
-/
theorem echo_writes_words
    {args : Text}
    {events : List Event}
    (hNull : '\x00' ∉ args)
    (hEcho : echo args = .ok events) :
    (∃ line, events = lines 0 [line, .succeed] ∧
      ∀ env, ∃ values,
        (Word.echoed (Word.split args)).map
            (fun word => (Template.ofWord word).filled? env) =
          values.map some ∧
        written? env (ofText line.render) =
          some (Text.joinWith " " values ++
            Word.echoEnd (Word.split args))) ∧
    ∀ env separator parts texts,
      parts.map (Template.filled? env) = texts.map some →
        (Template.join separator parts).filled? env =
          some (Text.joinWith separator texts) := by
  refine ⟨?_, fun _ separator _ _ h =>
    Template.filled?_join separator h⟩
  rcases eq_of_echo hEcho with ⟨newline, hEnd, rfl⟩
  have hWords : ∀ word ∈ Word.echoed (Word.split args),
      '\x00' ∉ word := fun word hWord hMem =>
    hNull (Word.mem_of_mem_split
      (Word.mem_of_mem_echoed hWord) hMem)
  generalize Word.echoed (Word.split args) = words at hWords ⊢
  have hDenotes := Template.denotes_join_ofWord " " words
  have hLacks : ∀ atom ∈ List.intercalate
      ((Text.ofString " ").map .char) (words.map fun word =>
        Reference.atoms .fill (Word.unquote word)),
          atom.LacksNull := by
    refine Atom.forall_mem_intercalate ?_
      (List.forall_mem_map.mpr fun word hWord =>
        Word.lacksNull_atoms (hWords word hWord))
    rw [Text.ofString_ofList]
    simp [Atom.LacksNull]
  refine ⟨_, rfl, fun env => ?_⟩
  let values := words.map fun word =>
    Atom.textOf env (Reference.atoms .fill (Word.unquote word))
  have hValues : words.map
      (fun word => (Template.ofWord word).filled? env) =
        values.map some := by
    simp [Template.filled?_ofWord, values]
  have hJoin : (Template.join " "
      (words.map Template.ofWord)).filled? env =
        some (Text.joinWith " " values) :=
    Template.filled?_join " "
      (by simpa [Function.comp_def] using hValues)
  rw [hDenotes.filled?_eq env, Option.some.injEq] at hJoin
  refine ⟨values, hValues, ?_⟩
  rw [written?_printLine hDenotes hLacks env newline, hJoin, hEnd]

/- A percent sign beside references, with the line left open. -/
theorem echo_writes_words_of_percent :
    let args : Text := "-n 'a%' \x22$x\x22-b $?"
    let env : Environment :=
      ⟨fun name => if name = ['x'] then some ['1'] else none, 3, 0⟩
    let line : Line := .printFormat
      ⟨"a%% %s-b %d", [.string (.variable "x"), .status]⟩
    '\x00' ∉ args ∧
    echo args = .ok (lines 0 [line, .succeed]) ∧
    written? env (ofText line.render) =
      some (Text.ofString "a% 1-b 3") ∧
    (Template.join "%"
        [.literal "50%", .format "%s" [.var "x"]]).filled? env =
      some (Text.ofString "50%%1") := by
  intro args env line
  have hNull : '\x00' ∉ args := by
    decide +kernel
  have hEcho : echo args = .ok (lines 0 [line, .succeed]) :=
    eq_ok_of_toOption (by decide +kernel)
  have hFilled : (Word.echoed (Word.split args)).map
      (fun word => (Template.ofWord word).filled? env) =
        [['a', '%'], ['1', '-', 'b'], ['3']].map some := by
    decide +kernel
  have hText : Text.joinWith " "
      [['a', '%'], ['1', '-', 'b'], ['3']] ++
        Word.echoEnd (Word.split args) = "a% 1-b 3" := by
    decide +kernel
  have hJoined : Text.joinWith "%" [Text.ofString "50%", ['1']] =
      "50%%1" := by
    decide +kernel
  rcases echo_writes_words hNull hEcho with
    ⟨⟨found, hFound, hWritten⟩, hJoin⟩
  have hLine : line = found := by
    simpa [lines] using hFound
  rcases hWritten env with ⟨values, hValues, hOutput⟩
  rw [hFilled] at hValues
  rw [← (List.map_inj_right fun _ _ => Option.some.inj).mp hValues,
    hText, ← hLine] at hOutput
  refine ⟨hNull, hEcho, hOutput, ?_⟩
  rw [← hJoined]
  exact hJoin env "%" _ _ (by decide +kernel)

end Event

end ShellToC
