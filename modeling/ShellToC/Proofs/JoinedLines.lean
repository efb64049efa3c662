import ShellToC.Proofs.Reader

/-
  This file reads the chunks of a script one by one.

  A backslash before a line feed joins two lines, and what is
  joined can mean something else than before: a number sign
  may start a comment, and a dollar sign may open a
  substitution.  In scripts without such places a reader that
  sees only the chunks finds the cuts where the script has
  them.

  Key definitions include:
    * `Statement.joinsApart`
    * `Statement.Chained`
    * `Statement.Tracks`

  Main declarations:
    * `Statement.chained_chunks`
-/

namespace ShellToC

namespace Statement

------------------------------------------------------------
-- Joined Lines
------------------------------------------------------------

/-
  Whether two marks that become neighbours mean something
  else than before: a dollar sign before a parenthesis opens
  a substitution, and a number sign that starts a word starts
  a comment.
-/
def fuses
    (left next : Option Mark) : Bool :=
  left.any (·.ch == '$') && next.any (·.ch == '(') ||
    left.all (fun m => m.isBare && Quoting.endsWord m.ch) &&
      next.any (·.isBareChar '#')

/-
  Whether no joined lines of a script fuse.  `left` is the
  mark that is kept last.
-/
def joinsApart
    (left : Option Mark) : List Mark → Bool
  | [] => true
  | m :: rest =>
      if m.ch = '\x5c' ∧ !m.isComment then
        match rest with
        | [] => true
        | n :: rest =>
            if n.ch = '\n' then
              !fuses left rest.head? && joinsApart left rest
            else
              joinsApart (some n) rest
      else
        joinsApart (some m) rest

/- Where two lines are joined, the marks on both sides do not fuse. -/
theorem joinsApart_joined
    {left : Option Mark}
    {q : Quoting}
    {pos : Nat}
    {rest : Text}
    (hRole : (q.step '\x5c' (some '\n')).1 ≠ .comment)
    (h : joinsApart left
      (Mark.scanFrom q pos ('\x5c' :: '\n' :: rest)) = true) :
    let behind := Mark.scanFrom
      ((q.step '\x5c' (some '\n')).2.step '\n' rest.head?).2
      (pos + '\x5c'.utf8Size + '\n'.utf8Size) rest
    fuses left behind.head? = false ∧
      joinsApart left behind = true := by
  simpa [Mark.scanFrom, joinsApart, Mark.isComment, hRole]
    using h

/- Behind an escape and behind a character that is kept. -/
theorem joinsApart_escape
    {left : Option Mark}
    {q : Quoting}
    {pos : Nat}
    {n : Char}
    {rest : Text}
    (hn : n ≠ '\n')
    (hRole : (q.step '\x5c' (some n)).1 ≠ .comment)
    (h : joinsApart left
      (Mark.scanFrom q pos ('\x5c' :: n :: rest)) = true) :
    joinsApart (some ⟨pos + '\x5c'.utf8Size, n,
        ((q.step '\x5c' (some n)).2.step n rest.head?).1⟩)
      (Mark.scanFrom ((q.step '\x5c' (some n)).2.step n
        rest.head?).2 (pos + '\x5c'.utf8Size + n.utf8Size)
          rest) = true := by
  simpa [Mark.scanFrom, joinsApart, Mark.isComment, hRole,
    hn] using h

theorem joinsApart_kept
    {left : Option Mark}
    {q : Quoting}
    {pos : Nat}
    {c : Char}
    {rest : Text}
    (hEscape : ¬(c = '\x5c' ∧
      (q.step c rest.head?).1 ≠ .comment))
    (h : joinsApart left
      (Mark.scanFrom q pos (c :: rest)) = true) :
    joinsApart (some ⟨pos, c, (q.step c rest.head?).1⟩)
      (Mark.scanFrom (q.step c rest.head?).2
        (pos + c.utf8Size) rest) = true := by
  rw [Mark.scanFrom, joinsApart.eq_def] at h
  simp only at h
  rwa [if_neg (by simpa [Mark.isComment] using hEscape)] at h

------------------------------------------------------------
-- Chains of Chunks
------------------------------------------------------------

/-
  Chunks that can be read one after the other, of which only
  the last one may be left open.  The first one goes on with
  what a reader has read.
-/
inductive Chained : Reader → List Text → Prop where
  | last
      {r r' : Reader}
      {chunk : Text}
      (hWalk : r.walk none chunk = some r') :
      Chained r [chunk]
  | cut
      {r r' : Reader}
      {chunk next : Text}
      {behind : List Text}
      (hWalk : r.walk none chunk = some r')
      (hSettled : r'.IsSettled)
      (hBehind : Chained (.opening next) (next :: behind)) :
      Chained r (chunk :: next :: behind)

/- A character that is read may stand before the first chunk. -/
theorem Chained.cons
    {r r' : Reader}
    {c : Char}
    {chunk : Text}
    {behind : List Text}
    (h : Chained r' (chunk :: behind))
    (hStep : r.step c chunk.head? = some r') :
    Chained r ((c :: chunk) :: behind) := by
  have hWalk :
      r.walk none (c :: chunk) = r'.walk none chunk := by
    simp [Reader.walk, hStep]
  cases h with
  | last h => exact .last (hWalk.trans h)
  | cut h hSettled hBehind =>
      exact .cut (hWalk.trans h) hSettled hBehind

/- There is always a chunk to go on with. -/
theorem Chained.exists_cons
    {r : Reader}
    {all : List Text}
    (h : Chained r all) :
    ∃ chunk behind, all = chunk :: behind := by
  cases h with
  | last => exact ⟨_, _, rfl⟩
  | cut => exact ⟨_, _, rfl⟩

/- What a new reader reads is opened by it. -/
theorem Chained.opening
    {chunk : Text}
    {behind : List Text}
    (h : Chained {} (chunk :: behind)) :
    Chained (.opening chunk) (chunk :: behind) := by
  cases h with
  | last h => exact .last (Reader.walk_opening h)
  | cut h hSettled hBehind =>
      exact .cut (Reader.walk_opening h) hSettled hBehind

/- A comment is cut off from what stands before it. -/
theorem Chained.comment
    {r : Reader}
    {all : List Text}
    (h : Chained .remark all)
    (hSettled : r.IsSettled) :
    Chained r ([] :: all.modifyHead ('#' :: ·)) := by
  rcases h.exists_cons with ⟨chunk, behind, rfl⟩
  have hRemark : Chained (.opening ('#' :: chunk))
      (('#' :: chunk) :: behind) := h.cons rfl
  exact .cut rfl hSettled hRemark

/- A separator cuts, once or behind an empty chunk. -/
theorem Chained.separator
    {r : Reader}
    {all : List Text}
    (h : Chained {} all)
    (hSettled : r.IsSettled)
    (isComment : Bool) :
    Chained r
      ((if isComment then [[], []] else [[]]) ++ all) := by
  rcases h.exists_cons with ⟨chunk, behind, rfl⟩
  cases isComment with
  | false => exact .cut rfl hSettled h.opening
  | true =>
      exact .cut rfl hSettled
        (.cut rfl Reader.isSettled_default h.opening)

/- An ampersand that ends its chunk is the last character of it. -/
theorem Chained.ampersand
    {r : Reader}
    {all : List Text}
    (h : Chained {} all)
    (hStep : r.step '&' none =
      some ⟨.start, false, glues '&'⟩) :
    Chained r (['&'] :: all) := by
  rcases h.exists_cons with ⟨chunk, behind, rfl⟩
  have hWalk : r.walk none ['&'] =
      some ⟨.start, false, glues '&'⟩ := by
    rw [Reader.walk, List.head?_nil, Option.none_or, hStep]
    rfl
  exact .cut hWalk
    { neutral := rfl
      pending := by decide
      escaped := rfl } h.opening

/-
  A reader that has read what was kept of a text so far.  Its
  quoting state is that of the text, except that joined lines
  do not hide the start of a word from it.
-/
structure Tracks
    (r : Reader)
    (q : Quoting)
    (glued : Bool)
    (text : Text) : Prop where
  tidy : q.IsTidy
  quoting : r.quoting =
    { q with wordStart := r.quoting.wordStart }
  remark : q.inComment = true → r.quoting = q
  escaped : r.escaped = false
  word : text.head? = some '#' → q.isNeutral = true →
    q.wordStart = r.quoting.wordStart
  held : q.pending = .quotedNext → text.head? = some '('
  glue : text.head? = some '&' → glued = true →
    r.glued = true

/- The reader and the text agree on the next character. -/
theorem Tracks.step
    {r : Reader}
    {q : Quoting}
    {glued : Bool}
    {c : Char}
    {rest : Text}
    (h : Tracks r q glued (c :: rest))
    (next : Option Char) :
    r.quoting.step c next = q.step c next := by
  cases hComment : q.inComment with
  | true => rw [h.remark hComment]
  | false =>
      rw [h.quoting]
      refine Quoting.step_congr_wordStart hComment ?_ next
      rintro rfl
      exact h.word rfl

/- A character that is kept is read, with what comes to stand behind it. -/
theorem Tracks.step_kept
    {r : Reader}
    {q : Quoting}
    {glued : Bool}
    {c : Char}
    {rest : Text}
    (h : Tracks r q glued (c :: rest))
    (hHash : ¬((q.step c rest.head?).1 = .comment ∧
      (!q.inComment) = true))
    (hEscape : ¬(c = '\x5c' ∧
      (q.step c rest.head?).1 ≠ .comment))
    (hSeparates :
      ¬separates (q.step c rest.head?).1 c = true)
    {next : Option Char}
    (hNext : c = '$' →
      (next = some '(' ↔ rest.head? = some '('))
    (hEnds : ends (q.step c rest.head?).1 r.glued c next =
      true → next = none) :
    r.step c next =
      some ⟨(q.step c rest.head?).2, false, glues c⟩ := by
  have hStep : r.quoting.step c next = q.step c rest.head? := by
    rw [h.step]
    exact Quoting.step_congr_next q c hNext
  have hComment : r.quoting.inComment = q.inComment := by
    rw [h.quoting]
    rfl
  rw [← hStep] at hHash hEscape hSeparates hEnds ⊢
  rw [← hComment] at hHash
  exact Reader.step_kept h.escaped hHash hEscape hSeparates
    hEnds

/- Where nothing is open in the text, the chunk can be cut. -/
theorem Tracks.isSettled
    {r : Reader}
    {q : Quoting}
    {glued : Bool}
    {text : Text}
    (h : Tracks r q glued text)
    (hNeutral : q.isNeutral = true)
    (hPending : q.pending ≠ .quotedNext) :
    r.IsSettled where
  neutral := by
    rw [h.quoting]
    exact hNeutral
  pending := by
    rw [h.quoting]
    exact hPending
  escaped := h.escaped

/- A new chunk starts where nothing is open. -/
theorem tracks_start
    {glued : Bool}
    {text : Text}
    (hGlued : text.head? = some '&' → glued = false) :
    Tracks {} .start glued text where
  tidy := Quoting.isTidy_start
  quoting := rfl
  remark := fun _ => rfl
  escaped := rfl
  word := fun _ _ => rfl
  held := by simp [Quoting.start]
  glue := by simp_all

/- A comment is read as such. -/
theorem tracks_remark
    (text : Text) :
    Tracks .remark .comment false text where
  tidy := fun _ => rfl
  quoting := rfl
  remark := fun _ => rfl
  escaped := rfl
  word := fun _ _ => rfl
  held := by simp [Quoting.comment]
  glue := by simp

/- The reader goes on behind a character that is kept. -/
theorem tracks_kept
    {q : Quoting}
    (hq : q.IsTidy)
    {c : Char}
    {rest : Text}
    (hEscape : ¬(c = '\x5c' ∧
      (q.step c rest.head?).1 ≠ .comment)) :
    Tracks ⟨(q.step c rest.head?).2, false, glues c⟩
      (q.step c rest.head?).2 (glues c) rest where
  tidy := hq.step _ _
  quoting := rfl
  remark := fun _ => rfl
  escaped := rfl
  word := fun _ _ => rfl
  held := by
    intro hPending
    rcases Quoting.step_pending hPending with
      ⟨hc, hRole, -⟩ | ⟨-, hNext⟩
    · exact absurd ⟨hc, by simp [hRole]⟩ hEscape
    · exact hNext
  glue := fun _ hGlued => hGlued

/- An escape leaves all as it was, but no word starts behind it. -/
theorem step_step_backslash
    {q : Quoting}
    (hPending : q.pending = .nothing)
    (n : Char)
    (next : Option Char) :
    (q.step '\x5c' (some n)).2.step n next =
      (.quoted, { q with
        wordStart := false
        single := q.single && n != '\x27' }) := by
  cases hSingle : q.single with
  | true => simp [Quoting.step, hPending, hSingle]
  | false =>
      simp [Quoting.step, Quoting.stepOpen, hPending, hSingle]

/- Nothing is decided about a backslash that escapes. -/
theorem Tracks.pending_backslash
    {r : Reader}
    {q : Quoting}
    {glued : Bool}
    {rest : Text}
    (h : Tracks r q glued ('\x5c' :: rest))
    (hRole : (q.step '\x5c' rest.head?).1 ≠ .comment) :
    q.pending = .nothing := by
  have hComment := (Quoting.step_backslash hRole).2
  cases hPending : q.pending with
  | nothing => rfl
  | quotedNext => simpa using h.held hPending
  | commentNext =>
      simp [Quoting.inComment, hPending] at hComment

/- The reader goes on behind an escape. -/
theorem Tracks.escape
    {r : Reader}
    {q : Quoting}
    {glued : Bool}
    {n : Char}
    {rest : Text}
    (h : Tracks r q glued ('\x5c' :: n :: rest))
    (hRole : (q.step '\x5c' (some n)).1 ≠ .comment) :
    let behind :=
      ((q.step '\x5c' (some n)).2.step n rest.head?).2
    Tracks ⟨behind, false, glues n⟩ behind (glues n) rest ∧
      behind.wordStart = false := by
  intro behind
  have hPending := h.pending_backslash hRole
  have hBehind : behind = { q with
      wordStart := false
      single := q.single && n != '\x27' } :=
    congrArg Prod.snd (step_step_backslash hPending n rest.head?)
  refine ⟨?_, by rw [hBehind]⟩
  exact
    { tidy := (h.tidy.step _ _).step _ _
      quoting := rfl
      remark := fun _ => rfl
      escaped := rfl
      word := fun _ _ => rfl
      held := by simp [hBehind, hPending]
      glue := fun _ hGlued => hGlued }

/- An escape is read, whatever comes to stand behind it. -/
theorem Tracks.chained_escape
    {r : Reader}
    {q : Quoting}
    {glued : Bool}
    {n : Char}
    {rest : Text}
    (h : Tracks r q glued ('\x5c' :: n :: rest))
    (hRole : (q.step '\x5c' (some n)).1 ≠ .comment)
    (hn : n ≠ '\n')
    {all : List Text}
    (hAll : Chained
      ⟨((q.step '\x5c' (some n)).2.step n rest.head?).2, false,
        glues n⟩ all) :
    Chained r (all.modifyHead ('\x5c' :: n :: ·)) := by
  rcases hAll.exists_cons with ⟨chunk, behind, rfl⟩
  have hEscape (next : Option Char) :=
    step_step_backslash (h.pending_backslash hRole) n next
  have hEscaped : Reader.step
      ⟨(q.step '\x5c' (some n)).2, true, false⟩ n chunk.head? =
        some ⟨((q.step '\x5c' (some n)).2.step n
          rest.head?).2, false, glues n⟩ := by
    rw [Reader.step_escaped rfl hn (by simp [hEscape]), hEscape,
      hEscape]
  refine (hAll.cons hEscaped).cons ?_
  rw [Reader.step_backslash h.escaped (by rwa [h.step]), h.step]
  rfl

/- A number sign that joined lines put at the start of a word fuses. -/
theorem fuses_hash
    {left : Option Mark}
    (hLeft : left.all
      (fun m => m.isBare && Quoting.endsWord m.ch) = true)
    {q : Quoting}
    (hNeutral : q.isNeutral = true)
    (hPending : q.pending = .nothing)
    (pos : Nat)
    (rest : Text) :
    fuses left (Mark.scanFrom
      ((q.step '\x5c' (some '\n')).2.step '\n' (some '#')).2
      pos ('#' :: rest)).head? = true := by
  have hFields := Quoting.isNeutral_iff.mp hNeutral
  have hBehind :
      ((q.step '\x5c' (some '\n')).2.step '\n' (some '#')).2 =
        { Quoting.start with wordStart := false } := by
    rw [step_step_backslash hPending, hFields.1, hFields.2.1,
      hFields.2.2.1, hFields.2.2.2, hPending]
    rfl
  rw [hBehind]
  simpa [fuses] using Or.inr ⟨hLeft, rfl⟩

/- Joined lines leave the reader where it is. -/
theorem Tracks.joined
    {r : Reader}
    {q : Quoting}
    {glued : Bool}
    {rest : Text}
    (h : Tracks r q glued ('\x5c' :: '\n' :: rest))
    (hRole : (q.step '\x5c' (some '\n')).1 ≠ .comment)
    (hWord : rest.head? = some '#' → q.isNeutral = true →
      r.quoting.wordStart = false) :
    Tracks r ((q.step '\x5c' (some '\n')).2.step '\n'
      rest.head?).2 (glues '\n') rest := by
  have hPending := h.pending_backslash hRole
  have hTidy := (h.tidy.step '\x5c' (some '\n')).step '\n'
    rest.head?
  rw [step_step_backslash hPending] at hTidy ⊢
  have hSingle : (q.single && '\n' != '\x27') = q.single := by
    simp
  rw [hSingle] at hTidy ⊢
  exact
    { tidy := hTidy
      quoting := h.quoting
      remark := by simp [Quoting.inComment, hPending]
      escaped := h.escaped
      word := fun hHash hNeutral =>
        (hWord hHash hNeutral).symm
      held := by simp [hPending]
      glue := by simp [glues] }

/- The first chunk starts with what is put before it. -/
theorem head?_modifyHead_cons
    {c : Char}
    (f : Text → Text)
    {all behind : List Text}
    {chunk : Text}
    (h : all.modifyHead (fun text => c :: f text) =
      chunk :: behind) :
    chunk.head? = some c := by
  cases all with
  | nil => simp at h
  | cons text all =>
      rw [List.modifyHead_cons] at h
      simp [← (List.cons.inj h).1]

/- The first chunk starts with the text, unless that is cut or joined. -/
theorem head?_chunks
    {q : Quoting}
    {glued : Bool}
    {text chunk : Text}
    {behind : List Text}
    (hChunks : chunks q glued text = chunk :: behind)
    {c : Char}
    (hText : text.head? = some c)
    (hc : c ∉ ['\x5c', '\n', ';', '#']) :
    chunk.head? = some c := by
  rcases List.head?_eq_some_iff.mp hText with ⟨rest, rfl⟩
  have hHash : ¬((q.step c rest.head?).1 = .comment ∧
      (!q.inComment) = true) := by
    rintro ⟨hRole, hComment⟩
    have hHash := Quoting.step_hash hRole
      (by simpa using hComment)
    simp [hHash.1] at hc
  rw [chunks_kept glued hHash (by simp_all)
    (by simp_all [separates])] at hChunks
  split at hChunks
  · simp [← (List.cons.inj hChunks).1]
  · exact head?_modifyHead_cons id hChunks

/- No parenthesis comes to stand behind a dollar sign. -/
theorem head?_of_joinsApart
    {left : Option Mark}
    (hLeft : left.any (·.ch == '$') = true)
    {q : Quoting}
    {glued : Bool}
    (pos : Nat)
    {text : Text}
    (hJoins : joinsApart left
      (Mark.scanFrom q pos text) = true)
    {chunk : Text}
    {behind : List Text}
    (hChunks : chunks q glued text = chunk :: behind)
    (hChunk : chunk.head? = some '(') :
    text.head? = some '(' := by
  fun_induction chunks q glued text generalizing pos with
  | case4 q glued c rest role after hHash hEscape next ih =>
      rcases hEscape with ⟨rfl, hRole⟩
      have hJoined := joinsApart_joined hRole hJoins
      have hHead := ih _ hJoined.2 hChunks
      rcases List.head?_eq_some_iff.mp hHead with ⟨rest, rfl⟩
      simp [Mark.scanFrom, fuses, hLeft] at hJoined
  | case5 q glued c n rest hn role after hHash hEscape next
      ih =>
      rw [← hChunk]
      exact (head?_modifyHead_cons (n :: ·) hChunks).symm
  | case8 q glued c rest role after hHash hEscape hSeparates
      hEnds ih =>
      rw [← hChunk]
      exact (head?_modifyHead_cons id hChunks).symm
  | case6 q glued c rest role after hHash hEscape hSeparates
      ih => split at hChunks <;> grind
  | _ => grind

/- What keeps an ampersand in the text keeps it in the chunk. -/
theorem Tracks.not_ends
    {r : Reader}
    {q : Quoting}
    {glued : Bool}
    {c : Char}
    {rest : Text}
    (h : Tracks r q glued (c :: rest))
    {role : Role}
    (hEnds : ¬ends role glued c rest.head? = true)
    {after : Quoting}
    {chunk : Text}
    {behind : List Text}
    (hChunks : chunks after (glues c) rest = chunk :: behind) :
    ¬ends role r.glued c chunk.head? = true := by
  intro hHere
  rcases (by simpa [ends] using hHere :
      ((role = .bare ∧ c = '&') ∧ r.glued = false) ∧
        chunk.head? ≠ some '&' ∧ chunk.head? ≠ some '>') with
    ⟨⟨⟨hRole, rfl⟩, hFree⟩, hAmpersand, hGreater⟩
  have hGlued : glued = false := by
    refine Bool.eq_false_iff.mpr fun hGlued => ?_
    simp [h.glue rfl hGlued] at hFree
  have hNext {c : Char} (hc : c ∉ ['\x5c', '\n', ';', '#'])
      (hChunk : chunk.head? ≠ some c) :
      rest.head? ≠ some c :=
    fun hRest => hChunk (head?_chunks hChunks hRest hc)
  apply hEnds
  simp [ends, hRole, hGlued, hNext (by decide) hAmpersand,
    hNext (by decide) hGreater]

/- The chunks of a script whose lines are joined apart can be read. -/
theorem chained_chunks
    (r : Reader)
    {q : Quoting}
    {glued : Bool}
    {text : Text}
    (hTracks : Tracks r q glued text)
    (left : Option Mark)
    (pos : Nat)
    (hJoins : joinsApart left
      (Mark.scanFrom q pos text) = true)
    (hLeft : q.inComment = false →
      r.quoting.wordStart = true →
      left.all (fun m => m.isBare && Quoting.endsWord m.ch) =
        true) :
    Chained r (chunks q glued text) := by
  fun_induction chunks q glued text
    generalizing r left pos with
  | case1 => exact .last rfl
  | case2 q glued c rest role after hHash ih =>
      rcases Quoting.step_hash hHash.1 (by simpa using hHash.2)
        with ⟨rfl, hNeutral, hPending, hAfter⟩
      have hAfter : after = .comment := hAfter
      have hJoined := joinsApart_kept (by simp) hJoins
      rw [hAfter] at ih ⊢
      have hRest := ih .remark (tracks_remark rest) _ _
        (by rwa [← hAfter]) (by simp)
      exact hRest.comment
        (hTracks.isSettled hNeutral (by simp [hPending]))
  | case3 q glued c role hHash hEscape =>
      rcases hEscape with ⟨rfl, hRole⟩
      have hStep := Reader.step_backslash hTracks.escaped
        (by rwa [hTracks.step])
      have hWalk : r.walk none ['\x5c'] =
          some ⟨(r.quoting.step '\x5c' none).2, true, false⟩ := by
        rw [Reader.walk, Option.or_none, hStep]
        rfl
      exact .last hWalk
  | case4 q glued c rest role after hHash hEscape behind ih =>
      rcases hEscape with ⟨rfl, hRole⟩
      have hJoined := joinsApart_joined hRole hJoins
      have hComment := (Quoting.step_backslash hRole).2
      refine ih _ (hTracks.joined hRole ?_) _ _ hJoined.2
        fun _ => hLeft hComment
      intro hSign hNeutral
      rcases List.head?_eq_some_iff.mp hSign with ⟨rest, rfl⟩
      refine Bool.eq_false_iff.mpr fun hWord => ?_
      have hFuses := fuses_hash (hLeft hComment hWord) hNeutral
        (hTracks.pending_backslash hRole)
        (pos + '\x5c'.utf8Size + '\n'.utf8Size) rest
      exact Bool.false_ne_true (hJoined.1.symm.trans hFuses)
  | case5 q glued c n rest hn role after hHash hEscape behind
      ih =>
      rcases hEscape with ⟨rfl, hRole⟩
      have hJoined := joinsApart_escape hn hRole hJoins
      rcases hTracks.escape hRole with ⟨hBehind, hWord⟩
      exact hTracks.chained_escape hRole hn
        (ih _ hBehind _ _ hJoined (by simp [hWord]))
  | case6 q glued c rest role after hHash hEscape hSeparates
      ih =>
      rcases (by simpa [separates] using hSeparates :
          (q.step c rest.head?).1 = .bare ∧
            (c = '\n' ∨ c = ';')) with ⟨hRole, hc⟩
      rcases Quoting.step_bare hRole with
        ⟨hNeutral, hPending, -, hAfter⟩
      have hJoined := joinsApart_kept hEscape hJoins
      have hEndsWord : Quoting.endsWord c = true := by
        rcases hc with rfl | rfl <;> rfl
      have hGlues : glues c = false := by
        rcases hc with rfl | rfl <;> rfl
      have hAfter : after = .start := by
        rw [hEndsWord] at hAfter
        exact hAfter
      rw [hAfter, hGlues] at ih ⊢
      have hRest := ih {} (tracks_start fun _ => rfl) _ _
        (by rwa [← hAfter])
        (by simp [Mark.isBare, hRole, hEndsWord])
      exact hRest.separator
        (hTracks.isSettled hNeutral hPending) q.inComment
  | case7 q glued c rest role after hHash hEscape hSeparates
      hEnds ih =>
      rcases (by simpa [ends] using hEnds :
          (((q.step c rest.head?).1 = .bare ∧ c = '&') ∧
            glued = false) ∧ rest.head? ≠ some '&' ∧
              rest.head? ≠ some '>') with
        ⟨⟨⟨hRole, rfl⟩, -⟩, hNext, -⟩
      have hAfter : after = .start := (Quoting.step_bare hRole).2.2.2
      have hJoined := joinsApart_kept hEscape hJoins
      have hStep : r.step '&' none =
          some ⟨after, false, glues '&'⟩ :=
        hTracks.step_kept hHash hEscape hSeparates (by simp)
          fun _ => rfl
      rw [hAfter] at ih hStep ⊢
      exact (ih {} (tracks_start fun h => absurd h hNext) _ _
        (by rwa [← hAfter])
        (by simp [Mark.isBare, hRole, Quoting.endsWord])).ampersand
          hStep
  | case8 q glued c rest role after hHash hEscape hSeparates
      hEnds ih =>
      have hJoined := joinsApart_kept hEscape hJoins
      rcases List.exists_cons_of_ne_nil (chunks_ne_nil after
          (glues c) rest) with ⟨chunk, chunks, hChunks⟩
      have hRest := ih ⟨after, false, glues c⟩
        (tracks_kept hTracks.tidy hEscape) _ _ hJoined
        fun hComment hWord => by
          have hBare := Quoting.step_wordStart hComment hWord
          simp [Mark.isBare, hBare]
      rw [hChunks] at hRest ⊢
      refine hRest.cons
        (hTracks.step_kept hHash hEscape hSeparates ?_
          fun hHere =>
            absurd hHere (hTracks.not_ends hEnds hChunks))
      rintro rfl
      constructor
      · exact head?_of_joinsApart rfl _ hJoined hChunks
      · exact fun hParen =>
          head?_chunks hChunks hParen (by decide)

end Statement

end ShellToC
