import ShellToC.Script.Word

/-
  This file says what reading one character can do to the
  quoting state.

  Every later fact about quoting is a case split over these
  steps, so that the reading itself is opened only here.

  Key definitions include:
    * `Quoting.inComment`
    * `Quoting.Step`
    * `Quoting.IsTidy`

  Main declarations:
    * `Quoting.step_spec`
    * `Quoting.step_congr_next`
    * `Quoting.step_congr_wordStart`
-/

namespace ShellToC

------------------------------------------------------------
-- Quoting States
------------------------------------------------------------

/- A blank is none of the characters that are not blank. -/
theorem Text.ne_of_isBlank
    {c d : Char}
    (hc : isBlank c = true)
    (hd : isBlank d = false) :
    c ≠ d := by
  rintro rfl
  simp [hc] at hd

theorem Text.not_mem_of_isBlank
    {c : Char}
    (hc : isBlank c = true)
    {others : Text}
    (hOthers : others.all (!isBlank ·) = true) :
    c ∉ others := by
  intro hMem
  have hOther := List.all_eq_true.mp hOthers c hMem
  simp [hc] at hOther

namespace Role

@[simp] theorem quoted_beq_comment :
    (quoted == comment) = false := rfl

@[simp] theorem bare_beq_comment :
    (bare == comment) = false := rfl

@[simp] theorem comment_beq_bare :
    (comment == bare) = false := rfl

@[simp] theorem quoted_beq_bare :
    (quoted == bare) = false := rfl

end Role

namespace Quoting

/- The state inside of a comment. -/
def comment : Quoting :=
  { pending := .commentNext }

/- Whether the next character goes on with a comment. -/
def inComment
    (q : Quoting) : Bool :=
  q.pending == .commentNext

@[simp] theorem inComment_start :
    start.inComment = false := rfl

@[simp] theorem inComment_comment :
    comment.inComment = true := rfl

theorem inComment_iff
    {q : Quoting} :
    q.inComment = true ↔ q.pending = .commentNext := by
  simp [inComment]

theorem isNeutral_iff
    {q : Quoting} :
    q.isNeutral = true ↔
      q.single = false ∧ q.double = false ∧
        q.tick = false ∧ q.depth = 0 := by
  simp [isNeutral, and_assoc]

/- What reading a character can do. -/
inductive Step
    (q : Quoting)
    (c : Char)
    (next : Option Char) : Role → Quoting → Prop where
  /- The character before it has decided that it is quoted. -/
  | decided
      (hPending : q.pending = .quotedNext) :
      Step q c next .quoted
        { q with wordStart := false, pending := .nothing }
  /- A comment goes on. -/
  | remark
      (hPending : q.pending = .commentNext)
      (hc : c ≠ '\n') :
      Step q c next .comment q
  /- A comment starts. -/
  | hash
      (hNeutral : q.isNeutral = true)
      (hPending : q.pending = .nothing)
      (hWord : q.wordStart = true)
      (hc : c = '#') :
      Step q c next .comment comment
  /- Nothing is open. -/
  | bare
      (hNeutral : q.isNeutral = true)
      (hPending : q.pending = .nothing ∨
        q.pending = .commentNext ∧ c = '\n')
      (hc : c ≠ '\x5c') :
      Step q c next .bare
        { start with wordStart := endsWord c }
  /- Only a quote matters in single quotes. -/
  | single
      (hSingle : q.single = true)
      (hPending : q.pending = .nothing ∨
        q.pending = .commentNext ∧ c = '\n') :
      Step q c next .quoted
        { q with single := c != '\x27', wordStart := false }
  /- A backslash quotes what follows. -/
  | backslash
      (hPending : q.pending = .nothing)
      (hSingle : q.single = false)
      (hc : c = '\x5c') :
      Step q c next .quoted
        { q with wordStart := false, pending := .quotedNext }
  /- Quotes or substitutions are opened, go on, or are closed. -/
  | inside
      (after : Quoting)
      (hSingle : q.single = false)
      (hPending : q.pending = .nothing ∨
        q.pending = .commentNext ∧ c = '\n')
      (hc : c ≠ '\x5c')
      (hWord : after.wordStart = false)
      (hAfter : after.pending = .nothing ∨
        after.pending = .quotedNext ∧
          c = '$' ∧ next = some '(')
      (hBlank : Text.isBlank c = true →
        after.isNeutral = false) :
      Step q c next .quoted after

/- Reading a character does one of these things. -/
theorem step_spec
    (q : Quoting)
    (c : Char)
    (next : Option Char) :
    Step q c next (q.step c next).1 (q.step c next).2 := by
  fun_cases step q c next with
  | case1 hQuoted => exact .decided hQuoted
  | case2 hQuoted hComment =>
      exact .remark hComment.1 hComment.2
  | case3 hQuoted hComment hSingle =>
      refine .single hSingle ?_
      cases hPending : q.pending <;> simp_all
  | case4 hQuoted hComment hSingle =>
      have hSingle : q.single = false := by
        simpa using hSingle
      have hPending : q.pending = .nothing ∨
          q.pending = .commentNext ∧ c = '\n' := by
        cases hPending : q.pending <;> simp_all
      have hNothing (hc : c ≠ '\n') :
          q.pending = .nothing := by
        rcases hPending with hPending | ⟨-, hFeed⟩
        · exact hPending
        · exact absurd hFeed hc
      fun_cases stepOpen q c next
      case case1 inside hc =>
        exact .backslash (hNothing (by simp [hc])) hSingle hc
      case case8 inside _ _ _ _ _ _ _ hHash =>
        rcases hHash with ⟨hc, hWord, hNeutral⟩
        have hFields := isNeutral_iff.mp hNeutral
        simp only [inside, hFields]
        exact .hash hNeutral (hNothing (by simp [hc])) hWord hc
      case case9 inside hc _ _ _ _ _ _ _ hNeutral =>
        have hFields := isNeutral_iff.mp hNeutral
        simp only [inside, hFields]
        exact .bare hNeutral hPending hc
      case case10 inside hc _ _ _ _ _ _ _ hOpen =>
        refine .inside _ hSingle hPending hc rfl (Or.inl rfl)
          fun _ => ?_
        exact Bool.eq_false_iff.mpr hOpen
      all_goals
        -- The other characters that matter are not blank.
        refine .inside _ hSingle hPending (by grind) rfl
          (by grind) fun hBlank => ?_
        have hOther : c ∉
            ['\x27', '\x22', '\x60', '$', '(', ')'] :=
          Text.not_mem_of_isBlank hBlank (by decide)
        simp_all

/- The next character matters to a dollar sign only. -/
theorem step_congr_next
    (q : Quoting)
    (c : Char)
    {next other : Option Char}
    (h : c = '$' → (next = some '(' ↔ other = some '(')) :
    q.step c next = q.step c other := by
  by_cases hc : c = '$'
  · simp [step, stepOpen, h hc]
  · simp [step, stepOpen, hc]

/- Where a word starts matters to a bare number sign only. -/
theorem step_congr_wordStart
    {q : Quoting}
    (hq : q.inComment = false)
    {c : Char}
    {w : Bool}
    (hc : c = '#' → q.isNeutral = true → q.wordStart = w)
    (next : Option Char) :
    { q with wordStart := w }.step c next =
      q.step c next := by
  have hPending : q.pending ≠ .commentNext := by
    simpa [inComment] using hq
  have hNeutral :
      ({ q with wordStart := w } : Quoting).isNeutral =
        q.isNeutral := rfl
  by_cases hHash : c = '#'
  · cases hOpen : q.isNeutral with
    | true => rw [← hc hHash hOpen]
    | false =>
        simp [step, stepOpen, hPending, hNeutral, hOpen,
          hHash]
  · simp [step, stepOpen, hPending, hNeutral, hHash]

/- A comment starts only where nothing is open. -/
def IsTidy
    (q : Quoting) : Prop :=
  q.inComment = true → q = comment

theorem isTidy_start : start.IsTidy := by
  simp [IsTidy]

theorem IsTidy.step
    {q : Quoting}
    (hq : q.IsTidy)
    (c : Char)
    (next : Option Char) :
    (q.step c next).2.IsTidy := by
  intro hComment
  rw [inComment_iff] at hComment
  have hSpec := q.step_spec c next
  generalize (q.step c next).1 = role at hSpec
  generalize (q.step c next).2 = after at hSpec hComment ⊢
  cases hSpec with
  | remark hPending _ => exact hq (inComment_iff.mpr hPending)
  | hash => rfl
  | single hSingle hPending =>
      -- A comment does not stand in single quotes.
      rw [hq (inComment_iff.mpr hComment)] at hSingle
      simp [comment] at hSingle
  | inside _ _ _ _ _ hAfter _ => simp [hComment] at hAfter
  | _ => simp [start] at hComment

/- Behind a character of a comment the comment goes on. -/
theorem IsTidy.inComment_step
    {q : Quoting}
    (hq : q.IsTidy)
    (c : Char)
    (next : Option Char) :
    (q.step c next).2.inComment =
      ((q.step c next).1 == .comment) := by
  have hSpec := q.step_spec c next
  generalize (q.step c next).1 = role at hSpec ⊢
  generalize (q.step c next).2 = after at hSpec ⊢
  cases hSpec with
  | remark hPending _ => exact inComment_iff.mpr hPending
  | single hSingle _ =>
      refine Bool.eq_false_iff.mpr fun hComment => ?_
      rw [hq hComment] at hSingle
      simp [comment] at hSingle
  | inside _ _ _ _ _ hAfter _ =>
      refine Bool.eq_false_iff.mpr fun hComment => ?_
      simp [inComment_iff.mp hComment] at hAfter
  | _ => rfl

/- A comment goes on up to the line feed, which is bare. -/
theorem step_comment
    (c : Char)
    (next : Option Char) :
    comment.step c next =
      if c = '\n' then (.bare, start) else (.comment, comment) := by
  by_cases hc : c = '\n'
  · subst hc
    rfl
  · simp [step, comment, hc]

/- A line feed where nothing is open is bare, and all starts anew. -/
theorem step_lineFeed
    {q : Quoting}
    (hNeutral : q.isNeutral = true)
    (hPending : q.pending ≠ .quotedNext)
    (next : Option Char) :
    q.step '\n' next = (.bare, start) := by
  have hFields := isNeutral_iff.mp hNeutral
  simp [step, stepOpen, hNeutral, hPending, hFields]
  rfl

/- Where a comment starts. -/
theorem step_hash
    {q : Quoting}
    {c : Char}
    {next : Option Char}
    (hRole : (q.step c next).1 = .comment)
    (hComment : q.inComment = false) :
    c = '#' ∧ q.isNeutral = true ∧ q.pending = .nothing ∧
      (q.step c next).2 = comment := by
  have hSpec := q.step_spec c next
  rw [hRole] at hSpec
  generalize (q.step c next).2 = after at hSpec ⊢
  cases hSpec with
  | remark hPending _ =>
      simp [inComment_iff.mpr hPending] at hComment
  | hash hNeutral hPending _ hc =>
      exact ⟨hc, hNeutral, hPending, rfl⟩

/- Where a character is bare. -/
theorem step_bare
    {q : Quoting}
    {c : Char}
    {next : Option Char}
    (hRole : (q.step c next).1 = .bare) :
    q.isNeutral = true ∧ q.pending ≠ .quotedNext ∧
      c ≠ '\x5c' ∧
      (q.step c next).2 =
        { start with wordStart := endsWord c } := by
  have hSpec := q.step_spec c next
  rw [hRole] at hSpec
  generalize (q.step c next).2 = after at hSpec ⊢
  cases hSpec with
  | bare hNeutral hPending hc =>
      refine ⟨hNeutral, ?_, hc, rfl⟩
      rcases hPending with hPending | ⟨hPending, -⟩ <;>
        simp [hPending]

/- The characters that mean nothing to quoting where nothing is open. -/
def isPlain
    (c : Char) : Bool :=
  !(['\x5c', '\x27', '\x22', '\x60', '$', '#'].contains c)

/- A plain character where nothing is open is bare. -/
theorem step_plain
    {q : Quoting}
    (hNeutral : q.isNeutral = true)
    (hPending : q.pending = .nothing)
    {c : Char}
    (hc : isPlain c = true)
    (next : Option Char) :
    q.step c next =
      (.bare, { start with wordStart := endsWord c }) := by
  have hFields := isNeutral_iff.mp hNeutral
  have hStep : q.step c next =
      (.bare, { q with
        wordStart := endsWord c
        pending := .nothing }) := by
    simp_all [step, stepOpen, isPlain]
  rw [hStep, hFields.1, hFields.2.1, hFields.2.2.1,
    hFields.2.2.2]
  rfl

theorem isPlain_of_isBlank
    {c : Char}
    (hc : Text.isBlank c = true) :
    isPlain c = true := by
  have hOther : c ∉ ['\x5c', '\x27', '\x22', '\x60', '$', '#'] :=
    Text.not_mem_of_isBlank hc (by decide)
  simpa [isPlain] using hOther

/- Where a word may start, the character before it is bare. -/
theorem step_wordStart
    {q : Quoting}
    {c : Char}
    {next : Option Char}
    (hComment : (q.step c next).2.inComment = false)
    (hWord : (q.step c next).2.wordStart = true) :
    (q.step c next).1 = .bare ∧ endsWord c = true := by
  have hSpec := q.step_spec c next
  generalize (q.step c next).1 = role at hSpec ⊢
  generalize (q.step c next).2 = after at hSpec hComment hWord
  cases hSpec with
  | remark hPending _ =>
      simp [inComment_iff.mpr hPending] at hComment
  | hash => simp at hComment
  | bare => exact ⟨rfl, hWord⟩
  | inside _ _ _ _ hInside _ _ => simp [hInside] at hWord
  | _ => simp at hWord

/- Only a backslash or a dollar sign decides about what follows. -/
theorem step_pending
    {q : Quoting}
    {c : Char}
    {next : Option Char}
    (h : (q.step c next).2.pending = .quotedNext) :
    (c = '\x5c' ∧ (q.step c next).1 = .quoted ∧
        q.pending = .nothing ∧ q.single = false) ∨
      c = '$' ∧ next = some '(' := by
  have hSpec := q.step_spec c next
  generalize (q.step c next).1 = role at hSpec ⊢
  generalize (q.step c next).2 = after at hSpec h
  cases hSpec with
  | remark hPending _ => simp [hPending] at h
  | single _ hPending => grind
  | backslash hPending hSingle hc =>
      exact Or.inl ⟨hc, rfl, hPending, hSingle⟩
  | inside _ _ _ _ _ hAfter _ => simp_all
  | _ => simp [start, comment] at h

/- A backslash outside of comments is quoted. -/
theorem step_backslash
    {q : Quoting}
    {next : Option Char}
    (h : (q.step '\x5c' next).1 ≠ .comment) :
    (q.step '\x5c' next).1 = .quoted ∧
      q.inComment = false := by
  have hSpec := q.step_spec '\x5c' next
  generalize (q.step '\x5c' next).1 = role at h hSpec ⊢
  generalize (q.step '\x5c' next).2 = after at hSpec
  cases hSpec with
  | decided hPending => simp [inComment, hPending]
  | single _ hPending =>
      rcases hPending with hPending | ⟨-, hFeed⟩
      · simp [inComment, hPending]
      · simp at hFeed
  | backslash hPending _ _ => simp [inComment, hPending]
  | _ => contradiction

/- No comment starts behind a quoted character. -/
theorem step_ne_comment_of_quoted
    {q : Quoting}
    (hq : q.IsTidy)
    {c : Char}
    {next : Option Char}
    (h : (q.step c next).1 = .quoted)
    (n : Char)
    (behind : Option Char) :
    ((q.step c next).2.step n behind).1 ≠ .comment := by
  have hComment := hq.inComment_step c next
  rw [h] at hComment
  have hWord : (q.step c next).2.wordStart = false := by
    have hSpec := q.step_spec c next
    generalize (q.step c next).2 = after at hSpec ⊢
    rw [h] at hSpec
    cases hSpec with
    | inside _ _ _ _ hWord _ _ => exact hWord
    | _ => rfl
  generalize (q.step c next).2 = after at hComment hWord ⊢
  intro hRole
  have hSpec := after.step_spec n behind
  rw [hRole] at hSpec
  generalize (after.step n behind).2 = last at hSpec
  cases hSpec with
  | remark hPending _ =>
      simp [inComment_iff.mpr hPending] at hComment
  | hash _ _ hStart _ => simp [hWord] at hStart

end Quoting

------------------------------------------------------------
-- Marks
------------------------------------------------------------

namespace Mark

/- The marks of a text are those of its characters. -/
theorem chars_scanFrom
    (q : Quoting)
    (pos : Nat)
    (text : Text) :
    chars (scanFrom q pos text) = text := by
  induction text generalizing q pos with
  | nil => rfl
  | cons c rest ih =>
      simp only [scanFrom, chars, List.map_cons] at ih ⊢
      rw [ih]

/- A plain character where nothing is open has a bare mark. -/
theorem scanFrom_plain
    {q : Quoting}
    (hNeutral : q.isNeutral = true)
    (hPending : q.pending = .nothing)
    (pos : Nat)
    {c : Char}
    (hc : Quoting.isPlain c = true)
    (rest : Text) :
    scanFrom q pos (c :: rest) =
      ⟨pos, c, .bare⟩ ::
        scanFrom { Quoting.start with
          wordStart := Quoting.endsWord c }
          (pos + c.utf8Size) rest := by
  rw [scanFrom, Quoting.step_plain hNeutral hPending hc]

/- The elements between the cuts are those that are not cut. -/
theorem flatten_splitOnP
    {α : Type}
    (p : α → Bool)
    (xs : List α) :
    (xs.splitOnP p).flatten = xs.filter (!p ·) := by
  induction xs with
  | nil => rfl
  | cons x xs ih =>
      rw [List.splitOnP_cons_eq_if_modifyHead]
      cases hx : p x with
      | true => simp [hx, ih]
      | false =>
          cases hSplit : xs.splitOnP p with
          | nil => exact absurd hSplit (List.splitOnP_ne_nil p xs)
          | cons first rest =>
              rw [hSplit] at ih
              simp [hx, ← ih]

end Mark

/- The characters of the words of a text are its own. -/
theorem Word.mem_of_mem_split
    {text word : Text}
    (hWord : word ∈ split text)
    {c : Char}
    (hc : c ∈ word) :
    c ∈ text := by
  rw [split, List.mem_filter, List.mem_map] at hWord
  rcases hWord with ⟨⟨part, hPart, rfl⟩, -⟩
  rcases List.mem_map.mp hc with ⟨m, hm, rfl⟩
  have hFlat := List.mem_flatten_of_mem hPart hm
  rw [Mark.flatten_splitOnP] at hFlat
  have hMark : m.ch ∈ Mark.chars (Mark.scan text) :=
    List.mem_map_of_mem (List.mem_filter.mp hFlat).1
  rwa [Mark.scan, Mark.chars_scanFrom] at hMark

end ShellToC
