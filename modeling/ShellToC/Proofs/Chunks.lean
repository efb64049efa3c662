import ShellToC.Script.Statement
import ShellToC.Proofs.QuotingStep

/-
  This file cuts a script into the chunks between two cuts,
  in one loop over its characters.

  The chunks are what the statements are made of.  Unlike
  these, they can be looked at from the middle of a text on,
  so that what stands before and behind a place can be
  treated apart.

  Key definitions include:
    * `Statement.texts`
    * `Statement.ofChunk`
    * `Statement.chunks`

  Main declarations:
    * `Statement.texts_eq_flatMap_chunks`
-/

namespace ShellToC

------------------------------------------------------------
-- Chunks
------------------------------------------------------------

namespace Statement

/- The texts of the statements of a script. -/
def texts
    (script : Text) : List Text :=
  (ofScript script).map Statement.text

/- The statements that a chunk makes. -/
def ofChunk
    (chunk : Text) : List Text :=
  isolate (Text.trim chunk)

@[simp] theorem ofChunk_nil : ofChunk [] = [] := by
  rw [ofChunk, isolate]
  rfl

/- Whether the mark of a character separates statements. -/
def separates
    (role : Role)
    (c : Char) : Bool :=
  role == .bare && (c == '\n' || c == ';')

/- An ampersand behind one of these does not end a statement. -/
def glues
    (c : Char) : Bool :=
  c == '&' || c == '>' || c == '<'

/- Whether a character ends its statement and stays with it. -/
def ends
    (role : Role)
    (glued : Bool)
    (c : Char)
    (next : Option Char) : Bool :=
  role == .bare && c == '&' && !glued &&
    !(next == some '&' || next == some '>')

/-
  The chunks of a text, of which the first one goes on with
  what stands before the text.  `q` is the quoting state
  there, and `glued` tells of the last character.  A comment
  is a chunk of its own, and a backslash takes the next
  character with it.
-/
def chunks
    (q : Quoting)
    (glued : Bool) : Text → List Text
  | [] => [[]]
  | c :: rest =>
      let role := (q.step c rest.head?).1
      let after := (q.step c rest.head?).2
      if role = .comment ∧ !q.inComment then
        [] :: (chunks after (glues c) rest).modifyHead (c :: ·)
      else if c = '\x5c' ∧ role ≠ .comment then
        match rest with
        | [] => [[c]]
        | n :: rest =>
            let behind := (after.step n rest.head?).2
            if n = '\n' then
              chunks behind (glues n) rest
            else
              (chunks behind (glues n) rest).modifyHead
                (c :: n :: ·)
      else if separates role c then
        -- The line feed behind a comment cuts twice.
        (if q.inComment then [[], []] else [[]]) ++
          chunks after (glues c) rest
      else if ends role glued c rest.head? then
        [c] :: chunks after (glues c) rest
      else
        (chunks after (glues c) rest).modifyHead (c :: ·)

/- There is always a chunk to go on with. -/
theorem chunks_ne_nil
    (q : Quoting)
    (glued : Bool)
    (text : Text) :
    chunks q glued text ≠ [] := by
  fun_induction chunks q glued text <;> simp_all

/- A comment starts a chunk. -/
theorem chunks_hash
    {q : Quoting}
    (glued : Bool)
    {c : Char}
    {rest : Text}
    (hHash : (q.step c rest.head?).1 = .comment ∧
      (!q.inComment) = true) :
    chunks q glued (c :: rest) =
      [] :: (chunks (q.step c rest.head?).2 (glues c)
        rest).modifyHead (c :: ·) := by
  rw [chunks.eq_def]
  simp only [if_pos hHash]

/- A separator is a cut, and the one behind a comment is two. -/
theorem chunks_separates
    {q : Quoting}
    (glued : Bool)
    {c : Char}
    {rest : Text}
    (hRole : (q.step c rest.head?).1 = .bare)
    (hSeparates : c = '\n' ∨ c = ';') :
    chunks q glued (c :: rest) =
      (if q.inComment then [[], []] else [[]]) ++
        chunks (q.step c rest.head?).2 false rest := by
  rw [chunks.eq_def]
  rcases hSeparates with rfl | rfl <;>
    simp [hRole, separates, glues]

/- A character that neither escapes nor separates is kept. -/
theorem chunks_kept
    {q : Quoting}
    (glued : Bool)
    {c : Char}
    {rest : Text}
    (hHash : ¬((q.step c rest.head?).1 = .comment ∧
      (!q.inComment) = true))
    (hEscape : ¬(c = '\x5c' ∧
      (q.step c rest.head?).1 ≠ .comment))
    (hSeparates :
      ¬separates (q.step c rest.head?).1 c = true) :
    chunks q glued (c :: rest) =
      if ends (q.step c rest.head?).1 glued c rest.head? then
        [c] :: chunks (q.step c rest.head?).2 (glues c) rest
      else
        (chunks (q.step c rest.head?).2 (glues c)
          rest).modifyHead (c :: ·) := by
  rw [chunks.eq_def]
  simp only [if_neg hHash, if_neg hEscape, if_neg hSeparates]

/- An escape takes the next character with it. -/
theorem chunks_escape
    {q : Quoting}
    (glued : Bool)
    {n : Char}
    {rest : Text}
    (hEscape : (q.step '\x5c' (some n)).1 ≠ .comment) :
    chunks q glued ('\x5c' :: n :: rest) =
      if n = '\n' then
        chunks ((q.step '\x5c' (some n)).2.step n
          rest.head?).2 (glues n) rest
      else
        (chunks ((q.step '\x5c' (some n)).2.step n
          rest.head?).2 (glues n) rest).modifyHead
            ('\x5c' :: n :: ·) := by
  rw [chunks.eq_def]
  simp [hEscape]

/- The texts between the cuts of pieces. -/
def textsBetween
    (pieces : List Piece) : List Text :=
  (pieces.splitOnP Piece.isCut).map
    (List.filterMap Piece.char?)

@[simp] theorem textsBetween_nil :
    textsBetween [] = [[]] := rfl

@[simp] theorem textsBetween_cut
    (pieces : List Piece) :
    textsBetween (.cut :: pieces) =
      [] :: textsBetween pieces := by
  simp [textsBetween, List.splitOnP_cons_eq_if_modifyHead,
    Piece.isCut]

@[simp] theorem textsBetween_char
    (c : Char)
    (line : Nat)
    (pieces : List Piece) :
    textsBetween (.char c line :: pieces) =
      (textsBetween pieces).modifyHead (c :: ·) := by
  rcases List.exists_cons_of_ne_nil
      (List.splitOnP_ne_nil Piece.isCut pieces) with
    ⟨part, parts, hParts⟩
  simp [textsBetween, List.splitOnP_cons_eq_if_modifyHead,
    Piece.isCut, hParts, Piece.char?]

/- The first mark is that of the first character. -/
theorem head?_scanFrom
    (q : Quoting)
    (pos : Nat)
    (text : Text) :
    (Mark.scanFrom q pos text).head?.map Mark.ch =
      text.head? := by
  cases text <;> rfl

/- The pieces of a text whose first character is no escape. -/
theorem ofMarks_scanFrom_cons
    {q : Quoting}
    (hq : q.IsTidy)
    (before : Option Char)
    (line pos : Nat)
    {c : Char}
    {rest : Text}
    (hc : ¬(c = '\x5c' ∧
      (q.step c rest.head?).1 ≠ .comment)) :
    Piece.ofMarks q.inComment before line
        (Mark.scanFrom q pos (c :: rest)) =
      (if (q.step c rest.head?).2.inComment = q.inComment then
          []
        else
          [.cut]) ++
        Piece.ofMark before rest.head? line
          ⟨pos, c, (q.step c rest.head?).1⟩ ++
        Piece.ofMarks (q.step c rest.head?).2.inComment
          (some c) (if c = '\n' then line + 1 else line)
          (Mark.scanFrom (q.step c rest.head?).2
            (pos + c.utf8Size) rest) := by
  have hEscape : ¬(c = '\x5c' ∧
      (!(q.step c rest.head?).1 == .comment) = true) := by
    simpa using hc
  rw [Mark.scanFrom, Piece.ofMarks.eq_def]
  simp only [Mark.isComment, hq.inComment_step,
    head?_scanFrom, List.append_assoc]
  rw [if_neg hEscape]
  rfl

/-
  An escape takes the next character with it, and a line feed
  vanishes together with it.
-/
theorem ofMarks_scanFrom_escape
    {q : Quoting}
    (hq : q.IsTidy)
    (before : Option Char)
    (line pos : Nat)
    {n : Char}
    {rest : Text}
    (hc : (q.step '\x5c' (some n)).1 ≠ .comment) :
    Piece.ofMarks q.inComment before line
        (Mark.scanFrom q pos ('\x5c' :: n :: rest)) =
      (if n = '\n' then
          []
        else
          [.char '\x5c' line, .char n line]) ++
        Piece.ofMarks
          ((q.step '\x5c' (some n)).2.step n
            rest.head?).2.inComment
          (some n) (if n = '\n' then line + 1 else line)
          (Mark.scanFrom ((q.step '\x5c' (some n)).2.step n
            rest.head?).2 (pos + '\x5c'.utf8Size + n.utf8Size)
              rest) := by
  have hFirst := Quoting.step_backslash hc
  have hSecond := Quoting.step_ne_comment_of_quoted hq
    hFirst.1 n rest.head?
  have hInside := (hq.step '\x5c' (some n)).inComment_step n
    rest.head?
  rw [beq_eq_false_iff_ne.mpr hSecond] at hInside
  rw [hInside, hFirst.2]
  simp only [Mark.scanFrom, List.head?_cons, hFirst.1]
  rw [Piece.ofMarks.eq_def]
  simp only [Mark.isComment]
  by_cases hn : n = '\n' <;> simp [hn]

/- A comment ends at a separator, and starts at its first character. -/
theorem inComment_step_eq
    {q : Quoting}
    (hq : q.IsTidy)
    {c : Char}
    {next : Option Char}
    (hHash : ¬((q.step c next).1 = .comment ∧
      (!q.inComment) = true))
    (hSeparates : ¬separates (q.step c next).1 c = true) :
    (q.step c next).2.inComment = q.inComment := by
  rw [hq.inComment_step]
  cases hComment : q.inComment with
  | false =>
      rw [hComment] at hHash
      simpa using hHash
  | true =>
      rw [hq hComment, Quoting.step_comment] at hSeparates ⊢
      split at hSeparates
      · simp_all [separates]
      · simp_all

/- An ampersand ends a statement by its neighbours. -/
theorem ends_any_glues
    (role : Role)
    (before : Option Char)
    (c : Char)
    (next : Option Char) :
    ends role (before.any glues) c next =
      (role == .bare && c == '&' &&
        Piece.endsStatement before next) := by
  cases before with
  | none => simp [ends, Piece.endsStatement, Bool.and_assoc]
  | some b =>
      simp [ends, glues, Piece.endsStatement, Bool.and_assoc]

/- The chunks are the texts between the cuts of the pieces. -/
theorem textsBetween_ofMarks
    {q : Quoting}
    (hq : q.IsTidy)
    (before : Option Char)
    {glued : Bool}
    (hGlued : before.any glues = glued)
    (line pos : Nat)
    (text : Text) :
    textsBetween (Piece.ofMarks q.inComment before line
        (Mark.scanFrom q pos text)) =
      chunks q glued text := by
  fun_induction chunks q glued text
    generalizing before line pos with
  | case1 => simp [Mark.scanFrom, Piece.ofMarks]
  | case2 q glued c rest role after hHash ih =>
      have hAfter : after.inComment = true := by
        rw [hq.inComment_step]
        simpa using hHash.1
      have hRole : (q.step c rest.head?).1 = .comment := hHash.1
      rw [ofMarks_scanFrom_cons hq _ _ _ (by grind),
        if_neg (by grind)]
      simp [hRole, Piece.ofMark, Mark.isBareChar, Mark.isBare,
        after, ih (hq.step _ _) (some c) rfl]
  | case3 q glued c role hHash hEscape =>
      rcases hEscape with ⟨rfl, hRole⟩
      have hFirst := Quoting.step_backslash hRole
      simp only [List.head?_nil] at hFirst
      simp [Mark.scanFrom, Piece.ofMarks, Mark.isComment,
        hFirst]
  | case4 q glued c rest role after hHash hEscape behind ih =>
      rcases hEscape with ⟨rfl, hRole⟩
      rw [ofMarks_scanFrom_escape hq before line pos hRole]
      exact ih ((hq.step _ _).step _ _) (some '\n') rfl _ _
  | case5 q glued c n rest hn role after hHash hEscape behind
      ih =>
      rcases hEscape with ⟨rfl, hRole⟩
      rw [ofMarks_scanFrom_escape hq before line pos hRole,
        if_neg hn, ← ih ((hq.step _ _).step _ _) (some n) rfl
          (if n = '\n' then line + 1 else line)
          (pos + '\x5c'.utf8Size + n.utf8Size)]
      simp [behind, after, Function.comp_def]
  | case6 q glued c rest role after hHash hEscape hSeparates
      ih =>
      have hSeparates : (q.step c rest.head?).1 = .bare ∧
          (c = '\n' ∨ c = ';') := by
        simpa [separates] using hSeparates
      have hAfter : (q.step c rest.head?).2.inComment = false := by
        rw [hq.inComment_step, hSeparates.1]
        rfl
      rw [ofMarks_scanFrom_cons hq _ _ _ hEscape,
        ← ih (hq.step _ _) (some c) rfl
          (if c = '\n' then line + 1 else line)
          (pos + c.utf8Size), hAfter]
      cases q.inComment <;>
        simp [Piece.ofMark, Mark.isBareChar, Mark.isBare,
          hSeparates, after]
  | case7 q glued c rest role after hHash hEscape hSeparates
      hEnds ih =>
      rw [ofMarks_scanFrom_cons hq _ _ _ hEscape,
        ← ih (hq.step _ _) (some c) rfl
          (if c = '\n' then line + 1 else line)
          (pos + c.utf8Size),
        if_pos (inComment_step_eq hq hHash hSeparates)]
      rcases (by simpa [← hGlued, ends_any_glues] using hEnds :
          ((q.step c rest.head?).1 = .bare ∧ c = '&') ∧
            Piece.endsStatement before rest.head? = true) with
        ⟨⟨hRole, rfl⟩, hBetween⟩
      simp [Piece.ofMark, Mark.isBareChar, Mark.isBare, hRole,
        hBetween, after]
  | case8 q glued c rest role after hHash hEscape hSeparates
      hEnds ih =>
      rw [ofMarks_scanFrom_cons hq _ _ _ hEscape,
        ← ih (hq.step _ _) (some c) rfl
          (if c = '\n' then line + 1 else line)
          (pos + c.utf8Size),
        if_pos (inComment_step_eq hq hHash hSeparates)]
      rw [Piece.ofMark, if_neg (by
          simpa [separates, Mark.isBareChar, Mark.isBare,
            Bool.and_or_distrib_left] using hSeparates),
        if_neg (by
          simpa [← hGlued, ends_any_glues, Mark.isBareChar,
            Mark.isBare] using hEnds)]
      simp [after]

/- The statements of a script are made of its chunks. -/
theorem texts_eq_flatMap_chunks
    (script : Text) :
    texts script =
      (chunks .start false script).flatMap ofChunk := by
  have hChunks := textsBetween_ofMarks Quoting.isTidy_start
    none Option.any_none 1 0 script
  rw [textsBetween] at hChunks
  rw [texts, ofScript, List.map_flatMap, ← hChunks,
    List.flatMap_map]
  simp [ofPieces, ofChunk, Mark.scan, Function.comp_def]

end Statement

end ShellToC
