import ShellToC.Proofs.Chunks

/-
  This file defines the reader of one chunk, which stops
  where a cut would be.

  What can be read up to its end is a chunk wherever a script
  puts it on a line of its own, if nothing is open behind it.

  Key definitions include:
    * `Reader`
    * `Reader.walk`
    * `Reader.IsSettled`
    * `Statement.Reads`
    * `Statement.Closes`

  Main declarations:
    * `Reader.walk_append`
    * `Reader.chunks_append`
    * `Statement.texts_joinWith`
-/

namespace ShellToC

------------------------------------------------------------
-- Readers
------------------------------------------------------------

/-
  What the reader of one chunk knows behind a character: the
  quoting state, whether the character is a backslash that
  takes the next one with it, and whether it keeps an
  ampersand from ending the statement.
-/
structure Reader where
  quoting : Quoting := .start
  escaped : Bool := false
  glued : Bool := false
  deriving DecidableEq, Repr

namespace Reader

/- The reader inside of a comment. -/
def remark : Reader :=
  { quoting := .comment }

/- The reader that a chunk starts with. -/
def opening
    (text : Text) : Reader :=
  if text.head? = some '#' then remark else {}

/-
  Read one character.  There is no reader behind it if the
  chunk is cut there, or if it vanishes with the backslash
  before it.  An ampersand may end the chunk as its last
  character.
-/
def step
    (r : Reader)
    (c : Char)
    (next : Option Char) : Option Reader :=
  let role := (r.quoting.step c next).1
  let after := (r.quoting.step c next).2
  if role = .comment ∧ !r.quoting.inComment then
    none
  else if r.escaped then
    if c = '\n' then
      none
    else
      some ⟨after, false, Statement.glues c⟩
  else if c = '\x5c' ∧ role ≠ .comment then
    some ⟨after, true, false⟩
  else if Statement.separates role c then
    none
  else if Statement.ends role r.glued c next ∧
      next ≠ none then
    none
  else
    some ⟨after, false, Statement.glues c⟩

/- Read a text, with what comes next behind it. -/
def walk
    (next : Option Char)
    (r : Reader) : Text → Option Reader
  | [] => some r
  | c :: rest =>
      (r.step c (rest.head?.or next)).bind fun after =>
        walk next after rest

@[simp] theorem walk_nil
    (next : Option Char)
    (r : Reader) :
    walk next r [] = some r := rfl

/- A text is read up to a place, and from there on. -/
theorem walk_append
    (next : Option Char)
    (r : Reader)
    (first last : Text) :
    walk next r (first ++ last) =
      (walk (last.head?.or next) r first).bind fun after =>
        walk next after last := by
  induction first generalizing r with
  | nil => rfl
  | cons c first ih =>
      simp [walk, Option.bind_assoc, Option.or_assoc, ih]

/- A chunk can be cut behind these readers. -/
structure IsSettled
    (r : Reader) : Prop where
  neutral : r.quoting.isNeutral = true
  pending : r.quoting.pending ≠ .quotedNext
  escaped : r.escaped = false

theorem isSettled_default : IsSettled {} where
  neutral := rfl
  pending := by decide
  escaped := rfl

/- A backslash is read together with what follows it. -/
theorem step_backslash
    {r : Reader}
    (hEscaped : r.escaped = false)
    {next : Option Char}
    (hRole : (r.quoting.step '\x5c' next).1 ≠ .comment) :
    r.step '\x5c' next =
      some ⟨(r.quoting.step '\x5c' next).2, true, false⟩ := by
  simp [step, hEscaped, hRole]

/- An escaped character is read whatever it is, except for a line feed. -/
theorem step_escaped
    {r : Reader}
    (hEscaped : r.escaped = true)
    {c : Char}
    {next : Option Char}
    (hc : c ≠ '\n')
    (hRole : (r.quoting.step c next).1 ≠ .comment) :
    r.step c next =
      some ⟨(r.quoting.step c next).2, false,
        Statement.glues c⟩ := by
  simp [step, hEscaped, hRole, hc]

/- A character that is kept and does not end the chunk is read. -/
theorem step_kept
    {r : Reader}
    (hEscaped : r.escaped = false)
    {c : Char}
    {next : Option Char}
    (hHash : ¬((r.quoting.step c next).1 = .comment ∧
      (!r.quoting.inComment) = true))
    (hEscape : ¬(c = '\x5c' ∧
      (r.quoting.step c next).1 ≠ .comment))
    (hSeparates : ¬Statement.separates
      (r.quoting.step c next).1 c = true)
    (hEnds : Statement.ends (r.quoting.step c next).1 r.glued
      c next = true → next = none) :
    r.step c next =
      some ⟨(r.quoting.step c next).2, false,
        Statement.glues c⟩ := by
  unfold step
  simp only [hEscaped, if_neg hHash, if_neg hEscape,
    if_neg hSeparates]
  rw [if_neg Bool.false_ne_true, if_neg fun h => h.2 (hEnds h.1)]

/- A quoted character is read, unless it vanishes. -/
theorem step_quoted
    {r : Reader}
    {c : Char}
    {next : Option Char}
    (hRole : (r.quoting.step c next).1 = .quoted)
    (hc : c ≠ '\n') :
    ∃ glued, r.step c next =
      some ⟨(r.quoting.step c next).2,
        !r.escaped && c == '\x5c', glued⟩ := by
  cases hEscaped : r.escaped with
  | true =>
      exact ⟨_, step_escaped hEscaped hc (by simp [hRole])⟩
  | false =>
      by_cases hBackslash : c = '\x5c'
      · subst hBackslash
        exact ⟨_, step_backslash hEscaped (by simp [hRole])⟩
      · refine ⟨Statement.glues c, ?_⟩
        rw [step_kept hEscaped (by simp [hRole])
          (by simp [hBackslash])
          (by simp [Statement.separates, hRole])
          (by simp [Statement.ends, hRole])]
        simp [hBackslash]

/- The characters that only go on with a word where nothing is open. -/
def isWordChar
    (c : Char) : Bool :=
  Quoting.isPlain c && !Quoting.endsWord c &&
    !Statement.glues c

theorem all_not_isBlank_of_isWordChar
    {text : Text}
    (h : text.all isWordChar = true) :
    text.all (! Text.isBlank ·) = true := by
  rw [List.all_eq_true] at h ⊢
  intro c hc
  have hWord := h c hc
  simp_all [isWordChar, Quoting.endsWord]

/- A word is read where nothing is open. -/
theorem walk_word
    {text : Text}
    (hText : text ≠ [])
    (hWord : text.all isWordChar = true)
    {r : Reader}
    (hNeutral : r.quoting.isNeutral = true)
    (hPending : r.quoting.pending = .nothing)
    (hEscaped : r.escaped = false)
    (next : Option Char) :
    walk next r text =
      some { quoting := { wordStart := false } } := by
  induction text generalizing r with
  | nil => contradiction
  | cons c text ih =>
      simp only [List.all_cons, Bool.and_eq_true, isWordChar,
        Bool.not_eq_true'] at hWord
      rcases hWord with ⟨⟨⟨hPlain, hEnds⟩, hGlues⟩, hRest⟩
      have hQuoting := Quoting.step_plain hNeutral hPending hPlain
        (text.head?.or next)
      have hNe : c ≠ '\x5c' ∧ c ≠ '\n' ∧ c ≠ ';' ∧ c ≠ '&' := by
        refine ⟨?_, ?_, ?_, ?_⟩ <;> rintro rfl <;> contradiction
      have hStep : r.step c (text.head?.or next) =
          some { quoting := { wordStart := false } } := by
        rw [step_kept hEscaped (by simp [hQuoting])
          (by simp [hNe]) (by simp [Statement.separates, hNe])
          (by simp [Statement.ends, hNe]), hQuoting, hEnds,
          hGlues]
        rfl
      rw [walk, hStep, Option.bind_some]
      cases text with
      | nil => rfl
      | cons d text => exact ih (by simp) hRest rfl rfl rfl

/- What an unescaped character that is read can be. -/
theorem step_eq_some
    {r r' : Reader}
    (hEscaped : r.escaped = false)
    {c : Char}
    {next : Option Char}
    (h : r.step c next = some r') :
    ¬((r.quoting.step c next).1 = .comment ∧
        (!r.quoting.inComment) = true) ∧
      if c = '\x5c' ∧
          (r.quoting.step c next).1 ≠ .comment then
        r' = ⟨(r.quoting.step c next).2, true, false⟩
      else
        ¬Statement.separates (r.quoting.step c next).1 c ∧
        (Statement.ends (r.quoting.step c next).1 r.glued c
          next → next = none) ∧
        r' = ⟨(r.quoting.step c next).2, false,
          Statement.glues c⟩ := by
  unfold step at h
  simp only [hEscaped] at h
  grind

/- What an escaped character that is read can be. -/
theorem step_escaped_eq_some
    {r r' : Reader}
    (hEscaped : r.escaped = true)
    {c : Char}
    {next : Option Char}
    (h : r.step c next = some r') :
    c ≠ '\n' ∧
      r' = ⟨(r.quoting.step c next).2, false,
        Statement.glues c⟩ := by
  unfold step at h
  simp only [hEscaped] at h
  grind

/- Before a line feed as well as at the end no character is decided. -/
theorem quotingStep_head?_append
    (q : Quoting)
    (c : Char)
    (text : Text)
    {tail : Text}
    (hTail : tail.head?.all (· = '\n')) :
    q.step c (text ++ tail).head? = q.step c text.head? := by
  refine Quoting.step_congr_next q c fun _ => ?_
  cases text <;> cases tail <;> simp_all

theorem ends_head?_append
    (role : Role)
    (glued : Bool)
    (c : Char)
    (text : Text)
    {tail : Text}
    (hTail : tail.head?.all (· = '\n')) :
    Statement.ends role glued c (text ++ tail).head? =
      Statement.ends role glued c text.head? := by
  cases text <;> cases tail <;> simp_all [Statement.ends]

/-
  The chunks `all` are a text and the chunks behind it.  The
  first of these goes on with the text, unless the last
  character of the text has ended its chunk.
-/
def Continued
    (text : Text)
    (behind all : List Text) : Prop :=
  all = behind.modifyHead (text ++ ·) ∨ all = text :: behind

theorem Continued.nil
    (chunks : List Text) :
    Continued [] chunks chunks := by
  refine Or.inl ?_
  cases chunks <;> rfl

theorem Continued.cons
    {text : Text}
    {behind all : List Text}
    (h : Continued text behind all)
    (c : Char) :
    Continued (c :: text) behind
      (all.modifyHead (c :: ·)) := by
  rcases h with rfl | rfl
  · refine Or.inl ?_
    cases behind <;> rfl
  · exact Or.inr rfl

/- An empty chunk makes no statements, and a text makes its own. -/
theorem Continued.flatMap_ofChunk
    {text : Text}
    {behind all : List Text}
    (h : Continued text ([] :: behind) all) :
    all.flatMap Statement.ofChunk =
      Statement.ofChunk text ++
        behind.flatMap Statement.ofChunk := by
  rcases h with rfl | rfl <;> simp

/- What a reader reads is one chunk. -/
theorem chunks_append
    {r r' : Reader}
    {text tail : Text}
    (hTail : tail.head?.all (· = '\n'))
    (hEscaped : r.escaped = false)
    (hWalk : walk none r text = some r')
    (hOpen : tail = [] ∨ r'.escaped = false) :
    Continued text
      (Statement.chunks r'.quoting r'.glued tail)
      (Statement.chunks r.quoting r.glued
        (text ++ tail)) := by
  -- An escape is read together with what follows it.
  induction hLength : text.length using Nat.strongRecOn
    generalizing text r with
  | ind length ih =>
      cases text with
      | nil =>
          cases hWalk
          exact .nil _
      | cons c text =>
          rcases Option.bind_eq_some_iff.mp hWalk with
            ⟨r₁, hStep, hRest⟩
          rw [Option.or_none] at hStep
          rcases step_eq_some hEscaped hStep with
            ⟨hHash, hRead⟩
          have hNext := quotingStep_head?_append r.quoting c text
            hTail
          rw [← hNext] at hHash hRead
          split at hRead
          next hBackslash =>
            rcases hBackslash with ⟨rfl, hRole⟩
            cases text with
            | nil =>
                cases hRest
                have hTail : tail = [] := by
                  simpa [hRead] using hOpen
                subst hTail
                have hRole : (r.quoting.step '\x5c' none).1 ≠
                    .comment := hRole
                refine Or.inl ?_
                simp [Statement.chunks, hRole]
            | cons n text =>
                rcases Option.bind_eq_some_iff.mp hRest with
                  ⟨r₂, hStep₂, hRest₂⟩
                rcases step_escaped_eq_some (by rw [hRead])
                  hStep₂ with ⟨hn, rfl⟩
                have hText := ih text.length (by grind) rfl
                  hRest₂ rfl
                have hBehind := (hText.cons n).cons '\x5c'
                rw [hRead, Option.or_none,
                  ← quotingStep_head?_append _ n text hTail,
                  List.modifyHead_modifyHead] at hBehind
                rw [List.cons_append, List.cons_append,
                  Statement.chunks_escape _ hRole, if_neg hn]
                exact hBehind
          next hBackslash =>
            rcases hRead with ⟨hSeparates, hEnds, rfl⟩
            have hText := ih text.length (by grind) rfl hRest rfl
            rw [List.cons_append, Statement.chunks_kept _ hHash
              hBackslash hSeparates]
            split
            next hLast =>
              rw [ends_head?_append _ _ _ _ hTail,
                hNext] at hLast
              have hText : text = [] :=
                List.head?_eq_none_iff.mp (hEnds (by rwa [hNext]))
              subst hText
              cases hRest
              exact Or.inr rfl
            next => exact hText.cons c

/- What a new reader reads does not start as a comment. -/
theorem walk_opening
    {next : Option Char}
    {r : Reader}
    {text : Text}
    (h : walk next {} text = some r) :
    walk next (opening text) text = some r := by
  rw [opening]
  split
  next hHash =>
    rcases List.head?_eq_some_iff.mp hHash with ⟨rest, rfl⟩
    have hStep : step {} '#' (rest.head?.or next) = none := rfl
    rw [walk, hStep, Option.bind_none] at h
    contradiction
  next => exact h

/- A text that starts a chunk is read from its opening on. -/
theorem flatMap_chunks_opening
    (text : Text) :
    (Statement.chunks .start false text).flatMap
        Statement.ofChunk =
      (Statement.chunks (opening text).quoting
        (opening text).glued text).flatMap
          Statement.ofChunk := by
  rw [opening]
  split
  next hHash =>
    rcases List.head?_eq_some_iff.mp hHash with ⟨rest, rfl⟩
    have hStart : Quoting.start.step '#' rest.head? =
        (.comment, .comment) := rfl
    have hRemark : Quoting.comment.step '#' rest.head? =
        (.comment, .comment) := rfl
    rw [Statement.chunks_hash false (by simp [hStart]), remark,
      Statement.chunks_kept false]
      <;> simp [hStart, hRemark, Statement.separates,
        Statement.ends]
  next => rfl

/- What is read makes its statements, and those behind it follow. -/
theorem flatMap_chunks_append
    {text tail : Text}
    {r : Reader}
    (hTail : tail.head?.all (· = '\n'))
    (hWalk : walk none (opening text) text = some r)
    (hOpen : tail = [] ∨ r.escaped = false)
    {behind : List Text}
    (hBehind : Statement.chunks r.quoting r.glued tail =
      [] :: behind) :
    (Statement.chunks .start false (text ++ tail)).flatMap
        Statement.ofChunk =
      Statement.ofChunk text ++
        behind.flatMap Statement.ofChunk := by
  have hOpening : opening (text ++ tail) = opening text := by
    cases text <;> cases tail <;> simp_all [opening]
  have hEscaped : (opening text).escaped = false := by
    rw [opening]
    split <;> rfl
  rw [flatMap_chunks_opening, hOpening]
  refine Continued.flatMap_ofChunk ?_
  rw [← hBehind]
  exact chunks_append hTail hEscaped hWalk hOpen

end Reader

namespace Statement

/- A text that can be read up to its end. -/
def Reads
    (text : Text) : Prop :=
  ∃ r, Reader.walk none (.opening text) text = some r

/- A text that can be read, and behind which nothing is open. -/
def Closes
    (text : Text) : Prop :=
  ∃ r, Reader.walk none (.opening text) text = some r ∧
    r.IsSettled

theorem Closes.reads
    {text : Text}
    (h : Closes text) :
    Reads text := by
  rcases h with ⟨r, hWalk, -⟩
  exact ⟨r, hWalk⟩

/- The last chunk of a script. -/
theorem flatMap_chunks_of_reads
    {text : Text}
    (hText : Reads text) :
    (chunks .start false text).flatMap ofChunk =
      ofChunk text := by
  rcases hText with ⟨r, hWalk⟩
  have hNil : chunks r.quoting r.glued [] = [[]] := rfl
  have hChunks := Reader.flatMap_chunks_append rfl hWalk
    (Or.inl rfl) hNil
  simpa using hChunks

/- A chunk that is followed by a line. -/
theorem flatMap_chunks_of_closes
    {text : Text}
    (hText : Closes text)
    (rest : Text) :
    (chunks .start false (text ++ '\n' :: rest)).flatMap
        ofChunk =
      ofChunk text ++
        (chunks .start false rest).flatMap ofChunk := by
  rcases hText with ⟨r, hWalk, hSettled⟩
  have hFeed := Quoting.step_lineFeed hSettled.neutral
    hSettled.pending rest.head?
  have hBehind : chunks r.quoting r.glued ('\n' :: rest) =
      (if r.quoting.inComment then [[], []] else [[]]) ++
        chunks .start false rest := by
    rw [chunks_separates r.glued (by rw [hFeed]) (Or.inl rfl),
      hFeed]
  cases hComment : r.quoting.inComment <;>
    rw [hComment] at hBehind <;>
    rw [Reader.flatMap_chunks_append rfl hWalk
      (Or.inr hSettled.escaped) hBehind] <;> simp

/- Each line that can be read makes its own statements. -/
theorem texts_joinWith
    {parts : List Text}
    (hReads : ∀ part ∈ parts, Reads part)
    (hCloses : ∀ part ∈ parts.dropLast, Closes part) :
    texts (Text.joinWith ['\n'] parts) =
      parts.flatMap ofChunk := by
  rw [texts_eq_flatMap_chunks]
  induction parts with
  | nil => simp [Text.joinWith, chunks]
  | cons part parts ih =>
      cases parts with
      | nil =>
          rw [Text.joinWith, List.intercalate_singleton,
            flatMap_chunks_of_reads (hReads part (by simp)),
            List.flatMap_singleton]
      | cons next parts =>
          have hRest := ih
            (fun part hPart => hReads part (by simp_all))
            (fun part hPart => hCloses part (by simp_all))
          rw [Text.joinWith, List.intercalate_cons_cons,
            List.append_assoc, List.singleton_append,
            flatMap_chunks_of_closes (hCloses part (by simp)),
            List.flatMap_cons, ← hRest, Text.joinWith]

end Statement

end ShellToC
