import ShellToC.Proofs.JoinedLines
import ShellToC.Proofs.LeadingKeyword

/-
  This file shows when the statements of a script, written on
  lines of their own, are the statements of the new script.

  Two things keep them from it: joined lines that fuse, and
  an escaped blank at the end of a statement, which is lost
  when the statement is trimmed and leaves its backslash
  behind.

  Key definitions include:
    * `Statement.dangles`
    * `Statement.Lines`

  Main declarations:
    * `Statement.lines_isolate`
    * `Statement.texts_joinWith_texts`
-/

namespace ShellToC

------------------------------------------------------------
-- Reading Blanks
------------------------------------------------------------

namespace Reader

/- Blanks before a chunk are read without a trace. -/
theorem step_blank
    {c : Char}
    (hc : Text.isBlank c = true)
    {r : Reader}
    (hNeutral : r.quoting.isNeutral = true)
    (hPending : r.quoting.pending = .nothing)
    (hEscaped : r.escaped = false)
    {next : Option Char}
    {r' : Reader}
    (h : r.step c next = some r') :
    r' = {} := by
  have hQuoting := Quoting.step_plain hNeutral hPending
    (Quoting.isPlain_of_isBlank hc) next
  have hEndsWord : Quoting.endsWord c = true := by
    simp [Quoting.endsWord, hc]
  have hNe : c ≠ '\x5c' ∧ c ≠ '&' ∧ c ≠ '>' ∧ c ≠ '<' :=
    ⟨Text.ne_of_isBlank hc (by decide),
      Text.ne_of_isBlank hc (by decide),
      Text.ne_of_isBlank hc (by decide),
      Text.ne_of_isBlank hc (by decide)⟩
  have hRead := (step_eq_some hEscaped h).2
  rw [if_neg (by simp [hNe.1])] at hRead
  rw [hRead.2.2, hQuoting, hEndsWord]
  simp [Statement.glues, hNe]
  rfl

theorem walk_blanks
    {lead text : Text}
    (hLead : lead.all Text.isBlank = true)
    {r : Reader}
    (h : walk none {} (lead ++ text) = some r) :
    walk none {} text = some r := by
  induction lead with
  | nil => exact h
  | cons c lead ih =>
      simp only [List.all_cons, Bool.and_eq_true] at hLead
      rcases Option.bind_eq_some_iff.mp h with
        ⟨r', hStep, hRest⟩
      rw [step_blank hLead.1 rfl rfl rfl hStep] at hRest
      exact ih hLead.2 hRest

/- What follows does not matter to a reader, except for a parenthesis. -/
theorem step_none
    {next : Option Char}
    (hNext : next ≠ some '(')
    {r r' : Reader}
    {c : Char}
    (h : r.step c next = some r') :
    r.step c none = some r' := by
  have hQuoting : r.quoting.step c next =
      r.quoting.step c none :=
    Quoting.step_congr_next _ c (by simp [hNext])
  unfold step at h ⊢
  rw [hQuoting] at h
  grind

theorem walk_none
    {next : Option Char}
    (hNext : next ≠ some '(')
    {r r' : Reader}
    {text : Text}
    (h : walk next r text = some r') :
    walk none r text = some r' := by
  induction text generalizing r with
  | nil => exact h
  | cons c text ih =>
      rcases Option.bind_eq_some_iff.mp h with
        ⟨r₁, hStep, hRest⟩
      refine Option.bind_eq_some_iff.mpr ⟨r₁, ?_, ih hRest⟩
      cases text with
      | nil => exact step_none hNext hStep
      | cons d text => exact hStep

/-
  What a reader keeps to: an escaped character is either
  decided or in single quotes, and apart from that only the
  parenthesis behind a dollar sign is decided.
-/
structure IsSound
    (r : Reader)
    (next : Option Char) : Prop where
  escaped : r.escaped = true →
    r.quoting.pending = .quotedNext ∨ r.quoting.single = true
  pending : r.quoting.pending = .quotedNext →
    r.escaped = true ∨ next = some '('

theorem isSound_opening
    (text : Text)
    (next : Option Char) :
    IsSound (opening text) next := by
  rw [opening]
  split
  · exact ⟨by simp [remark], by simp [remark, Quoting.comment]⟩
  · exact ⟨by simp, by simp [Quoting.start]⟩

theorem IsSound.step
    {r r' : Reader}
    {c : Char}
    (h : IsSound r (some c))
    {next : Option Char}
    (hStep : r.step c next = some r') :
    IsSound r' next := by
  cases hEscaped : r.escaped with
  | true =>
      have hInside := h.escaped hEscaped
      rcases step_escaped_eq_some hEscaped hStep with ⟨-, rfl⟩
      refine ⟨by simp, fun hPending => Or.inr ?_⟩
      rcases Quoting.step_pending hPending with
        ⟨-, -, hNothing, hSingle⟩ | ⟨-, hNext⟩
      · simp [hNothing, hSingle] at hInside
      · exact hNext
  | false =>
      have hRead := (step_eq_some hEscaped hStep).2
      split at hRead
      next hBackslash =>
        rcases hBackslash with ⟨rfl, hRole⟩
        subst hRead
        refine ⟨fun _ => ?_, by simp⟩
        have hHeld : r.quoting.pending ≠ .quotedNext := by
          simpa [hEscaped] using h.pending
        have hSpec := r.quoting.step_spec '\x5c' next
        generalize (r.quoting.step '\x5c' next).1 = role
          at hSpec hRole
        generalize (r.quoting.step '\x5c' next).2 = after
          at hSpec
        cases hSpec <;> simp_all
      next hBackslash =>
        rcases hRead with ⟨-, -, rfl⟩
        refine ⟨by simp, fun hPending => Or.inr ?_⟩
        rcases Quoting.step_pending hPending with
          ⟨hc, hRole, -⟩ | ⟨-, hNext⟩
        · exact absurd ⟨hc, by simp [hRole]⟩ hBackslash
        · exact hNext

theorem IsSound.walk
    {next : Option Char}
    {text : Text}
    {r r' : Reader}
    (h : IsSound r (text.head?.or next))
    (hWalk : walk next r text = some r') :
    IsSound r' next := by
  induction text generalizing r with
  | nil =>
      cases hWalk
      exact h
  | cons c text ih =>
      rcases Option.bind_eq_some_iff.mp hWalk with
        ⟨r₁, hStep, hRest⟩
      exact ih (h.step hStep) hRest

/- A blank does not close what is open. -/
theorem step_blank_open
    {c : Char}
    (hc : Text.isBlank c = true)
    {r r' : Reader}
    {next : Option Char}
    (hStep : r.step c next = some r')
    (hPending : r.quoting.pending ≠ .quotedNext)
    (hEscaped : r.escaped = false) :
    r'.quoting.pending ≠ .quotedNext ∧ r'.escaped = false ∧
      (r'.quoting.isNeutral = true →
        r.quoting.isNeutral = true) := by
  have hBackslash : c ≠ '\x5c' :=
    Text.ne_of_isBlank hc (by decide)
  have hDollar : c ≠ '$' := Text.ne_of_isBlank hc (by decide)
  have hQuote : c ≠ '\x27' := Text.ne_of_isBlank hc (by decide)
  have hRead := (step_eq_some hEscaped hStep).2
  rw [if_neg (by simp [hBackslash])] at hRead
  rcases hRead with ⟨-, -, rfl⟩
  have hSpec := r.quoting.step_spec c next
  refine ⟨fun hQuoted => ?_, rfl, ?_⟩
  · rcases Quoting.step_pending hQuoted with ⟨hc, -⟩ | ⟨hc, -⟩
    · exact hBackslash hc
    · exact hDollar hc
  · generalize (r.quoting.step c next).1 = role at hSpec
    generalize (r.quoting.step c next).2 = after at hSpec ⊢
    cases hSpec <;> simp_all [Quoting.isNeutral_iff]

/- Where blanks lead to a place for a cut, they start at one. -/
theorem IsSettled.before_blanks
    {tail : Text}
    (hTail : tail.all Text.isBlank = true)
    {r r' : Reader}
    (hWalk : walk none r tail = some r')
    (hSettled : r'.IsSettled)
    (hPending : r.quoting.pending ≠ .quotedNext)
    (hEscaped : r.escaped = false) :
    r.IsSettled := by
  induction tail generalizing r with
  | nil =>
      cases hWalk
      exact hSettled
  | cons c tail ih =>
      simp only [List.all_cons, Bool.and_eq_true] at hTail
      rcases Option.bind_eq_some_iff.mp hWalk with
        ⟨r₁, hStep, hRest⟩
      rcases step_blank_open hTail.1 hStep hPending hEscaped
        with ⟨hPending₁, hEscaped₁, hNeutral⟩
      have hSettled₁ := ih hTail.2 hRest hPending₁ hEscaped₁
      exact ⟨hNeutral hSettled₁.neutral, hPending, hEscaped⟩

/-
  A text with blanks behind it is read without them.  If it
  could be cut behind them, it can be cut before them, unless
  the first one was escaped.
-/
theorem walk_trimEnd
    {r : Reader}
    (hSound : ∀ next, r.IsSound next)
    {text tail : Text}
    (hTail : tail.all Text.isBlank = true)
    {r' : Reader}
    (hWalk : walk none r (text ++ tail) = some r') :
    ∃ r₁, walk none r text = some r₁ ∧
      (r'.IsSettled → r₁.escaped = true ∨ r₁.IsSettled) := by
  rw [walk_append, Option.or_none] at hWalk
  rcases Option.bind_eq_some_iff.mp hWalk with
    ⟨r₁, hText, hBlanks⟩
  have hNext : tail.head? ≠ some '(' := by
    cases tail with
    | nil => simp
    | cons c tail =>
        simp only [List.all_cons, Bool.and_eq_true] at hTail
        simpa using Text.ne_of_isBlank hTail.1 (by decide)
  refine ⟨r₁, walk_none hNext hText, fun hSettled => ?_⟩
  cases hEscaped : r₁.escaped with
  | true => exact Or.inl rfl
  | false =>
      refine Or.inr (hSettled.before_blanks hTail hBlanks ?_
        hEscaped)
      intro hPending
      have hParen := (IsSound.walk (hSound _) hText).pending
        hPending
      simp [hEscaped, hNext] at hParen

/- Outside of comments, an escape is a backslash that is not escaped. -/
theorem escaped_step
    {r r' : Reader}
    {c : Char}
    {next : Option Char}
    (hStep : r.step c next = some r')
    (hComment : r.quoting.inComment = false)
    (hTidy : r.quoting.IsTidy) :
    r'.escaped = (!r.escaped && c == '\x5c') ∧
      r'.quoting.inComment = false ∧ r'.quoting.IsTidy := by
  have hAfter : (r.quoting.step c next).1 ≠ .comment ∧
      r'.escaped = (!r.escaped && c == '\x5c') ∧
      r'.quoting = (r.quoting.step c next).2 := by
    unfold step at hStep
    grind
  rcases hAfter with ⟨hRole, hEscaped, hQuoting⟩
  rw [hQuoting, hTidy.inComment_step]
  exact ⟨hEscaped, by simpa using hRole, hTidy.step c next⟩

end Reader

namespace Statement

/- Whether a text ends with a backslash that is not escaped itself. -/
def dangles
    (text : Text) : Bool :=
  text.foldl (fun escaped c => !escaped && c == '\x5c') false

/- A reader outside of comments is escaped where the text dangles. -/
theorem escaped_of_walk
    {text : Text}
    {next : Option Char}
    {r : Reader}
    (hWalk : Reader.walk next {} text = some r) :
    r.escaped = dangles text := by
  suffices h : ∀ r₀ : Reader,
      r₀.quoting.inComment = false → r₀.quoting.IsTidy →
        r₀.walk next text = some r → r.escaped = text.foldl
          (fun escaped c => !escaped && c == '\x5c')
          r₀.escaped from
    h {} rfl Quoting.isTidy_start hWalk
  clear hWalk
  induction text with
  | nil =>
      intro r₀ _ _ hWalk
      cases hWalk
      rfl
  | cons c text ih =>
      intro r₀ hComment hTidy hWalk
      rcases Option.bind_eq_some_iff.mp hWalk with
        ⟨r₁, hStep, hRest⟩
      rcases Reader.escaped_step hStep hComment hTidy with
        ⟨hEscaped, hComment₁, hTidy₁⟩
      rw [ih r₁ hComment₁ hTidy₁ hRest, hEscaped,
        List.foldl_cons]

------------------------------------------------------------
-- Statements of a Chunk
------------------------------------------------------------

/- A word can be followed by a line. -/
theorem closes_of_isWordChar
    {word : Text}
    (hNe : word ≠ [])
    (hWord : word.all Reader.isWordChar = true) :
    Closes word := by
  refine ⟨_, Reader.walk_opening
    (Reader.walk_word hNe hWord rfl rfl rfl none), ?_⟩
  exact
    { neutral := rfl
      pending := by simp
      escaped := rfl }

/-
  Statements, of which all but the last one can be followed
  by a line.  The last one is read up to `r`.
-/
inductive Lines
    (r : Reader) : List Text → Prop where
  | last
      {part : Text}
      (hPart : ofChunk part = [part])
      (hWalk : Reader.walk none (.opening part) part =
        some r) :
      Lines r [part]
  | cons
      {part : Text}
      {parts : List Text}
      (hPart : ofChunk part = [part])
      (hCloses : Closes part)
      (hParts : Lines r parts) :
      Lines r (part :: parts)

/- The leading keywords of a text that is read, and the rest of it. -/
theorem lines_isolate
    {text : Text}
    (hText : text ≠ [])
    (hTrimmed : text.IsTrimmed)
    {r : Reader}
    (hWalk : Reader.walk none {} text = some r) :
    Lines r (isolate text) := by
  fun_induction isolate text with
  | case1 text hEmpty => simp_all
  | case2 text hEmpty keyword rest hKeyword ih =>
      rcases leadingKeyword?_eq_some hKeyword with
        ⟨hMem, b, tail, hb, rfl, rfl⟩
      rcases all_isWordChar_keyword hMem with ⟨hNe, hWord⟩
      have hBlanks := Reader.all_not_isBlank_of_isWordChar hWord
      have hPart := ofChunk_eq_singleton hNe
        (Text.isTrimmed_of_all hBlanks)
        (leadingKeyword?_eq_none hBlanks)
      rcases hTrimmed.trimStart_tail (by simp) with
        ⟨hRest, hRestTrimmed⟩
      have hTrim : Text.trimStart (b :: tail) =
          Text.trimStart tail := by
        simp [Text.trimStart, hb]
      rw [hTrim] at hRest hRestTrimmed
      refine .cons hPart (closes_of_isWordChar hNe hWord)
        (ih hRest hRestTrimmed ?_)
      rw [Reader.walk_append, Reader.walk_word hNe hWord rfl rfl
        rfl, Option.bind_some] at hWalk
      rcases Option.bind_eq_some_iff.mp hWalk with
        ⟨r₁, hStep, hTail⟩
      rw [Reader.step_blank hb rfl rfl rfl hStep] at hTail
      rcases Text.trimStart_split tail with
        ⟨blanks, hAll, hSplit⟩
      rw [hSplit] at hTail
      exact Reader.walk_blanks hAll hTail
  | case3 text hEmpty hKeyword =>
      exact .last (ofChunk_eq_singleton hText hTrimmed hKeyword)
        (Reader.walk_opening hWalk)

/- The statements of a chunk that is read. -/
theorem lines_ofChunk
    {chunk : Text}
    {r : Reader}
    (hWalk : Reader.walk none (.opening chunk) chunk = some r) :
    ofChunk chunk = [] ∨ ∃ r₁, Lines r₁ (ofChunk chunk) ∧
      (r.IsSettled → r₁.escaped = true ∨ r₁.IsSettled) := by
  rcases Text.trim_split chunk with
    ⟨lead, tail, hLead, hTail, hSplit⟩
  have hTrimmed := Text.isTrimmed_trim chunk
  rw [ofChunk]
  generalize Text.trim chunk = text at hSplit hTrimmed ⊢
  by_cases hText : text = []
  · refine Or.inl ?_
    rw [hText]
    exact ofChunk_nil
  refine Or.inr ?_
  by_cases hHash : chunk.head? = some '#'
  · -- Nothing is trimmed from the start of a comment.
    have hNil : lead = [] := by
      cases lead with
      | nil => rfl
      | cons c lead =>
          rw [hSplit] at hHash
          have hc : c = '#' := by simpa using hHash
          rw [hc, List.all_cons] at hLead
          contradiction
    rw [hNil, List.nil_append] at hSplit
    subst hSplit
    have hStart : text.head? = some '#' := by
      rcases List.exists_cons_of_ne_nil hText with ⟨c, rest, rfl⟩
      exact hHash
    have hOpening : Reader.opening (text ++ tail) =
        .opening text := by
      rw [Reader.opening, Reader.opening, if_pos hHash,
        if_pos hStart]
    rw [hOpening] at hWalk
    rcases Reader.walk_trimEnd
        (Reader.isSound_opening _) hTail hWalk with
      ⟨r₁, hTrim, hSettled⟩
    have hPart := ofChunk_eq_singleton hText hTrimmed
      (leadingKeyword?_of_hash hStart)
    refine ⟨r₁, ?_, hSettled⟩
    have hIsolate : isolate text = [text] := by
      rwa [ofChunk, Text.trim_of_isTrimmed hTrimmed] at hPart
    rw [hIsolate]
    exact .last hPart hTrim
  · have hOpening : Reader.opening chunk = {} := by
      rw [Reader.opening, if_neg hHash]
    rw [hOpening, hSplit] at hWalk
    rcases Reader.walk_trimEnd
        (Reader.isSound_opening []) hTail
        (Reader.walk_blanks hLead hWalk) with
      ⟨r₁, hTrim, hSettled⟩
    exact ⟨r₁, lines_isolate hText hTrimmed hTrim, hSettled⟩

------------------------------------------------------------
-- Statements on Lines of Their Own
------------------------------------------------------------

/- Whether nothing in a text takes what follows it along. -/
def IsComplete
    (text : Text) : Prop :=
  text.head? = some '#' ∨ dangles text = false

instance (text : Text) : Decidable (IsComplete text) :=
  inferInstanceAs (Decidable (_ ∨ _))

/- A comment never escapes anything. -/
theorem escaped_of_walk_remark
    {text : Text}
    {r r' : Reader}
    (hRemark : r.quoting = .comment ∧ r.escaped = false)
    (hWalk : r.walk none text = some r') :
    r'.escaped = false := by
  induction text generalizing r with
  | nil =>
      cases hWalk
      exact hRemark.2
  | cons c text ih =>
      rcases Option.bind_eq_some_iff.mp hWalk with
        ⟨r₁, hStep, hRest⟩
      refine ih ?_ hRest
      have hRead := (Reader.step_eq_some hRemark.2 hStep).2
      rw [hRemark.1, Quoting.step_comment] at hRead
      by_cases hc : c = '\n'
      · simp [hc, separates] at hRead
      · rw [if_neg hc, if_neg (by simp)] at hRead
        simp [hRead.2.2]

/- A complete text can be followed by a line. -/
theorem IsComplete.closes
    {text : Text}
    (h : IsComplete text)
    {r : Reader}
    (hWalk : Reader.walk none (.opening text) text = some r)
    (hSettled : r.escaped = true ∨ r.IsSettled) :
    Closes text := by
  refine ⟨r, hWalk, ?_⟩
  have hEscaped : r.escaped = false := by
    rw [Reader.opening] at hWalk
    split at hWalk
    next => exact escaped_of_walk_remark ⟨rfl, rfl⟩ hWalk
    next hHash =>
      rw [escaped_of_walk hWalk]
      simpa [IsComplete, hHash] using h
  simpa [hEscaped] using hSettled

/-
  Statements that can be written on lines of their own, if
  those that are followed by a line are complete.
-/
structure Separable
    (texts : List Text) : Prop where
  parts : ∀ text ∈ texts, ofChunk text = [text]
  reads : ∀ text ∈ texts, Reads text
  closes : ∀ text ∈ texts.dropLast,
    IsComplete text → Closes text

/- Statements that are chunks are the statements of these. -/
theorem flatMap_ofChunk
    {parts : List Text}
    (hParts : ∀ part ∈ parts, ofChunk part = [part]) :
    parts.flatMap ofChunk = parts := by
  induction parts with
  | nil => rfl
  | cons part parts ih =>
      rw [List.flatMap_cons, hParts part (by simp),
        ih fun part hPart => hParts part (by simp [hPart])]
      rfl

theorem Separable.append
    {first last : List Text}
    (hFirst : Separable first)
    (hCloses : ∀ text ∈ first, IsComplete text → Closes text)
    (hLast : Separable last) :
    Separable (first ++ last) where
  parts := by
    simpa [or_imp, forall_and] using
      ⟨hFirst.parts, hLast.parts⟩
  reads := by
    simpa [or_imp, forall_and] using
      ⟨hFirst.reads, hLast.reads⟩
  closes := by
    intro text hText
    rw [List.dropLast_append] at hText
    split at hText
    · exact hFirst.closes text hText
    · rcases List.mem_append.mp hText with hText | hText
      · exact hCloses text hText
      · exact hLast.closes text hText

theorem Lines.separable
    {r : Reader}
    {texts : List Text}
    (h : Lines r texts) :
    Separable texts := by
  have hSingle {part : Text} (hPart : ofChunk part = [part])
      (hReads : Reads part) : Separable [part] :=
    ⟨by simpa using hPart, by simpa using hReads, by simp⟩
  induction h with
  | last hPart hWalk => exact hSingle hPart ⟨r, hWalk⟩
  | cons hPart hCloses hParts ih =>
      rcases id hCloses with ⟨r', hWalk, -⟩
      exact (hSingle hPart ⟨r', hWalk⟩).append
        (by simpa using fun _ => hCloses) ih

/- All the statements, also the last one, can be followed by a line. -/
theorem Lines.closes
    {r : Reader}
    {texts : List Text}
    (h : Lines r texts)
    (hSettled : r.escaped = true ∨ r.IsSettled) :
    ∀ text ∈ texts, IsComplete text → Closes text := by
  induction h with
  | last hPart hWalk =>
      intro text hText hComplete
      rw [List.mem_singleton.mp hText] at hComplete ⊢
      exact hComplete.closes hWalk hSettled
  | cons hPart hCloses hParts ih =>
      intro text hText hComplete
      rcases List.mem_cons.mp hText with rfl | hText
      · exact hCloses
      · exact ih text hText hComplete

/- The statements of chunks that can be read one after the other. -/
theorem Chained.separable
    {r : Reader}
    {chunks : List Text}
    (h : Chained r chunks)
    (hOpening : ∀ chunk, chunks.head? = some chunk →
      r = .opening chunk) :
    Separable (chunks.flatMap ofChunk) := by
  induction h with
  | @last r r' chunk hWalk =>
      rw [hOpening chunk rfl] at hWalk
      rw [List.flatMap_singleton]
      rcases lines_ofChunk hWalk with hNil | ⟨r₁, hLines, -⟩
      · rw [hNil]
        exact ⟨by simp, by simp, by simp⟩
      · exact hLines.separable
  | @cut r r' chunk next behind hWalk hSettled hBehind ih =>
      rw [hOpening chunk rfl] at hWalk
      have hRest := ih (by simp)
      rw [List.flatMap_cons]
      rcases lines_ofChunk hWalk with hNil | ⟨r₁, hLines, hEnd⟩
      · rwa [hNil]
      · exact hLines.separable.append
          (hLines.closes (hEnd hSettled)) hRest

/-
  The statements of a script are those of the script that has
  them on lines of their own, if no joined lines fuse and if
  each statement but the last one is complete.
-/
theorem texts_joinWith_texts
    (script : Text)
    (hJoins : joinsApart none (Mark.scan script) = true)
    (hComplete : ∀ text ∈ (texts script).dropLast,
      IsComplete text) :
    texts (Text.joinWith "\n" (texts script)) =
      texts script := by
  have hChained : Chained {} (chunks .start false script) :=
    chained_chunks {} (tracks_start fun _ => rfl) none 0 hJoins
      (by simp)
  rcases List.exists_cons_of_ne_nil
      (chunks_ne_nil .start false script) with
    ⟨chunk, behind, hChunks⟩
  rw [hChunks] at hChained
  have hSeparable := hChained.opening.separable (by simp)
  rw [← hChunks, ← texts_eq_flatMap_chunks] at hSeparable
  have hCloses : ∀ text ∈ (texts script).dropLast,
      Closes text := fun text hText =>
    hSeparable.closes text hText (hComplete text hText)
  rw [Text.ofString_ofList, texts_joinWith hSeparable.reads
    hCloses, flatMap_ofChunk hSeparable.parts]

/- Joined lines, keywords, a job and a comment stay as they are. -/
theorem texts_joinWith_texts_of_joined :
    let script : Text := "if a \\\nb; then c & # d\nfi"
    joinsApart none (Mark.scan script) = true ∧
      (∀ text ∈ (texts script).dropLast, IsComplete text) ∧
      (texts script).length = 5 ∧
      texts (Text.joinWith "\n" (texts script)) =
        texts script := by
  intro script
  have hScript : joinsApart none (Mark.scan script) = true ∧
      (∀ text ∈ (texts script).dropLast, IsComplete text) ∧
      (texts script).length = 5 := by
    unfold script
    rw [Text.ofString_ofList]
    decide +kernel
  exact ⟨hScript.1, hScript.2.1, hScript.2.2,
    texts_joinWith_texts script hScript.1 hScript.2.1⟩

/-
  Joined lines may start a comment or open a substitution,
  and an escaped blank at the end of a statement is lost.
-/
theorem texts_joinWith_texts_ne :
    let resegment (script : Text) : List Text :=
      texts (Text.joinWith "\n" (texts script))
    resegment "a \\\n#b" ≠ texts "a \\\n#b" ∧
      resegment "$\\\n(a;b)" ≠ texts "$\\\n(a;b)" ∧
      resegment "a\\ ;b" ≠ texts "a\\ ;b" := by
  repeat rw [Text.ofString_ofList]
  decide +kernel

end Statement

end ShellToC
