import ShellToC.Proofs.QuotedEcho

/-
  This file shows that quoting protects text: what is quoted
  character by character, or as a whole, is read back.

  A text in single quotes is one word, whatever the text is.
  Behind it nothing is open, so the words of a line of such
  texts are found one after the other.

  Key definitions include:
    * `Text.backslashed`

  Main declarations:
    * `Word.split_joinWith_singleQuoted`
    * `Word.unquote_backslashed`
    * `Template.quoted_words_read_back`
-/

namespace ShellToC

------------------------------------------------------------
-- Lines of Quoted Words
------------------------------------------------------------

namespace Mark

/- The marks of a text in single quotes hold no bare blank. -/
theorem exists_marks_singleQuoted
    {text : Text}
    (h : '\x27' ∉ text)
    (w : Bool)
    (pos : Nat)
    (rest : Text) :
    ∃ marks pos',
      scanFrom { Quoting.start with wordStart := w } pos
          (Text.singleQuoted text ++ rest) =
        marks ++ scanFrom { Quoting.start with wordStart := false }
          pos' rest ∧
      marks.splitOnP isBareBlank = [marks] ∧
      chars marks = Text.singleQuoted text := by
  rcases exists_scanFrom_singleQuoted h w pos rest with
    ⟨marks, pos', hScan, hMarks⟩
  refine ⟨marks, pos', hScan, ?_, ?_⟩
  · refine List.splitOnP_eq_singleton fun m hm => ?_
    simp [isBareBlank, isBare, hMarks m hm]
  · have hChars := congrArg chars hScan
    have hRest := chars_scanFrom
      { Quoting.start with wordStart := false } pos' rest
    rw [chars_scanFrom, chars, List.map_append] at hChars
    rw [chars] at hRest ⊢
    rw [hRest] at hChars
    exact (List.append_cancel_right hChars).symm

end Mark

namespace Word

open Mark

/- The runs between the bare blanks are the quoted texts. -/
theorem splitOnP_joinWith_singleQuoted
    (text : Text)
    {texts : List Text}
    (hTexts : ∀ t ∈ text :: texts, '\x27' ∉ t)
    (w : Bool)
    (pos : Nat) :
    ((scanFrom { Quoting.start with wordStart := w } pos
        (Text.joinWith [' ']
          ((text :: texts).map Text.singleQuoted))).splitOnP
        isBareBlank).map chars =
      (text :: texts).map Text.singleQuoted := by
  rw [List.forall_mem_cons] at hTexts
  induction texts generalizing text w pos with
  | nil =>
      rcases exists_marks_singleQuoted hTexts.1 w pos [] with
        ⟨marks, pos', hScan, hSplit, hChars⟩
      rw [List.append_nil, scanFrom, List.append_nil] at hScan
      simp [Text.joinWith, hScan, hSplit, hChars]
  | cons next texts ih =>
      rcases exists_marks_singleQuoted hTexts.1 w pos
          (' ' :: Text.joinWith [' ']
            ((next :: texts).map Text.singleQuoted)) with
        ⟨marks, pos', hScan, hSplit, hChars⟩
      have hBlank : Mark.isBareBlank ⟨pos', ' ', .bare⟩ = true := rfl
      have hRest := ih next (List.forall_mem_cons.mp hTexts.2)
        (Quoting.endsWord ' ') (pos' + ' '.utf8Size)
      have hJoin : Text.joinWith [' ']
          ((text :: next :: texts).map Text.singleQuoted) =
            Text.singleQuoted text ++ ' ' :: Text.joinWith [' ']
              ((next :: texts).map Text.singleQuoted) := by
        simp [Text.joinWith, List.intercalate_cons_cons]
      rw [hJoin, hScan, scanFrom_plain rfl rfl _ (by decide),
        List.splitOnP_append_cons _ _ hBlank, hSplit,
        List.map_append, hRest]
      simp [hChars]

/- The words of a line of quoted texts are the quoted texts. -/
theorem split_joinWith_singleQuoted
    {texts : List Text}
    (hTexts : ∀ text ∈ texts, '\x27' ∉ text) :
    split (Text.joinWith " " (texts.map Text.singleQuoted)) =
      texts.map Text.singleQuoted := by
  rw [Text.ofString_ofList]
  cases texts with
  | nil => rfl
  | cons text texts =>
      have hRuns := splitOnP_joinWith_singleQuoted text hTexts true 0
      rw [split, scan, Quoting.start]
      rw [Quoting.start] at hRuns
      rw [hRuns, List.filter_eq_self]
      intro word hWord
      rcases List.mem_map.mp hWord with ⟨t, -, rfl⟩
      rw [Text.singleQuoted_eq]
      rfl

end Word

------------------------------------------------------------
-- Single Characters
------------------------------------------------------------

/- A text with a backslash before each of its characters. -/
def Text.backslashed
    (text : Text) : Text :=
  text.flatMap fun c => ['\x5c', c]

/- Outside of quotes, a backslash protects any character. -/
theorem Word.unquote_backslashed
    (text : Text) :
    unquote text.backslashed = text.flatMap protect := by
  induction text with
  | nil => rfl
  | cons c rest ih =>
      have hEscape : unescape .none c = protect c := by
        simp [unescape]
      rw [unquote, Text.backslashed] at ih ⊢
      rw [List.flatMap_cons, List.flatMap_cons, ← ih, ← hEscape]
      rfl

namespace Template

/- A statement in single quotes stands for what is in them. -/
theorem ofStatement_singleQuoted
    (text : Text) :
    ofStatement (Text.singleQuoted text) = .literal text := by
  have hQuoted : Word.isSingleQuoted (Text.singleQuoted text) =
      true := by
    simp [Word.isSingleQuoted, Text.singleQuoted_eq,
      List.getLast?_cons]
  rw [ofStatement, hQuoted, if_pos rfl, Word.inner,
    Text.singleQuoted_eq]
  simp

/-
  Texts in single quotes with spaces between them are read
  as words, one for each, that stand for the texts.  A text
  with a backslash before each character stands for itself.
-/
theorem quoted_words_read_back
    (texts : List Text)
    (hTexts : ∀ text ∈ texts, '\x27' ∉ text) :
    let words := texts.map Text.singleQuoted
    Word.split (Text.joinWith " " words) = words ∧
      words.map ofWord = texts.map literal ∧
      words.map ofStatement = texts.map literal ∧
      ∀ text, ofWord (Text.backslashed text) = .literal text := by
  intro words
  refine ⟨Word.split_joinWith_singleQuoted hTexts, ?_, ?_, ?_⟩
  · rw [List.map_map]
    exact List.map_congr_left fun text hText =>
      ofWord_singleQuoted (hTexts text hText)
  · rw [List.map_map]
    exact List.map_congr_left fun text _ =>
      ofStatement_singleQuoted text
  · intro text
    rw [ofWord, Word.unquote_backslashed]
    exact resolve_eq_literal
      (Reference.atoms_flatMap_protect .fill text)

/- What is special outside of quotes, and an empty text. -/
theorem quoted_words_read_back_of_special :
    let texts : List Text :=
      ["$\x7bx\x7d%s\\", "", "# $(a\x60 \n\x22", "\\\\$?"]
    let words := texts.map Text.singleQuoted
    (∀ text ∈ texts, '\x27' ∉ text) ∧
    Word.split (Text.joinWith " " words) = words ∧
      words.map ofWord = texts.map literal ∧
      words.map ofStatement = texts.map literal ∧
      ∀ text, ofWord (Text.backslashed text) = .literal text := by
  intro texts words
  have hTexts : ∀ text ∈ texts, '\x27' ∉ text := by
    simp only [texts]
    repeat rw [Text.ofString_ofList]
    decide +kernel
  exact ⟨hTexts, quoted_words_read_back texts hTexts⟩

end Template

end ShellToC
