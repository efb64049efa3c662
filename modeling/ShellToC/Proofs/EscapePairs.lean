import ShellToC.Script.Statement
import ShellToC.Proofs.QuotingStep

/-
  This file says what every mark of a script keeps to, given
  the mark before it.

  Statements are cut from marks alone.  What the cutting relies
  on is stated here once for all marks, so that it need not look
  at the quoting state again: a backslash outside of comments
  and the mark behind it make a pair whose second mark is
  quoted, and comments run from a number sign up to a bare line
  feed.

  Key definitions include:
    * `Mark.opensPair`
    * `Mark.IsReadBehind`
    * `Mark.AreRead`

  Main declarations:
    * `Mark.areRead_scan`
    * `Mark.pairwise_pos_scan`
-/

namespace ShellToC

namespace Mark

------------------------------------------------------------
-- Marks and Those before Them
------------------------------------------------------------

theorem isBareChar_iff
    {c : Char}
    {m : Mark} :
    m.isBareChar c = true ↔ m.role = .bare ∧ m.ch = c := by
  simp [isBareChar, isBare]

theorem isBareChar_of_quoted
    {m : Mark}
    (h : m.role = .quoted)
    (c : Char) :
    m.isBareChar c = false := by
  simp [isBareChar, isBare, h]

/-
  Whether a mark takes the next one with it.  It is a backslash
  outside of comments that no backslash before it has taken.
-/
def opensPair
    (paired : Bool)
    (m : Mark) : Bool :=
  m.ch == '\x5c' && !m.isComment && !paired

theorem opensPair_iff
    {paired : Bool}
    {m : Mark} :
    m.opensPair paired = true ↔
      m.ch = '\x5c' ∧ m.isComment = false ∧ paired = false := by
  simp [opensPair, and_assoc]

/-
  What a mark keeps to.  `paired` and `inComment` tell of the
  mark before it: whether that one takes it along, and whether
  that one belongs to a comment.
-/
structure IsReadBehind
    (paired inComment : Bool)
    (m : Mark) : Prop where
  paired : paired = true → m.role = .quoted
  backslash : m.ch = '\x5c' → m.isBare = false
  hash : m.isComment = true → inComment = false → m.ch = '#'
  feed : m.isComment = false → inComment = true →
    m.isBareChar '\n' = true

/- Marks that keep to this one after the other. -/
def AreRead
    (paired inComment : Bool) : List Mark → Prop
  | [] => True
  | m :: rest =>
      m.IsReadBehind paired inComment ∧
        AreRead (m.opensPair paired) m.isComment rest

/- Behind a pair no pair is open. -/
theorem AreRead.behind_pair
    {inComment : Bool}
    {m n : Mark}
    {rest : List Mark}
    (h : AreRead false inComment (m :: n :: rest))
    (hm : m.opensPair false = true) :
    n.role = .quoted ∧ AreRead false false rest := by
  rcases h with ⟨-, hn, hRest⟩
  rw [hm] at hn hRest
  have hQuoted := hn.paired rfl
  have hTaken : n.opensPair true = false := by simp [opensPair]
  have hOutside : n.isComment = false := by
    simp [isComment, hQuoted]
  rw [hTaken, hOutside] at hRest
  exact ⟨hQuoted, hRest⟩

/- Behind any other mark no pair is open either. -/
theorem AreRead.behind_single
    {inComment : Bool}
    {m : Mark}
    {rest : List Mark}
    (h : AreRead false inComment (m :: rest))
    (hm : m.opensPair false = false) :
    AreRead false m.isComment rest := by
  simpa [hm] using h.2

/- Marks are read in pairs and one by one. -/
theorem pairInduction
    {motive : List Mark → Prop}
    (nil : motive [])
    (lone : ∀ m, m.opensPair false = true → motive [m])
    (pair : ∀ m n rest, m.opensPair false = true →
      motive rest → motive (m :: n :: rest))
    (single : ∀ m rest, m.opensPair false = false →
      motive rest → motive (m :: rest)) :
    ∀ marks, motive marks
  | [] => nil
  | m :: rest =>
      match hm : m.opensPair false, rest with
      | false, rest =>
          single m rest hm
            (pairInduction nil lone pair single rest)
      | true, [] => lone m hm
      | true, n :: rest =>
          pair m n rest hm
            (pairInduction nil lone pair single rest)

end Mark

------------------------------------------------------------
-- Pieces of Pairs
------------------------------------------------------------

namespace Piece

/- What is cut where a comment starts or ends. -/
def ofTurn
    (inComment isComment : Bool) : List Piece :=
  if isComment = inComment then [] else [.cut]

theorem ofMarks_single
    (inComment : Bool)
    (before : Option Char)
    (line : Nat)
    {m : Mark}
    (hm : m.opensPair false = false)
    (rest : List Mark) :
    ofMarks inComment before line (m :: rest) =
      ofTurn inComment m.isComment ++
        (ofMark before (rest.head?.map Mark.ch) line m ++
          ofMarks m.isComment m.ch
            (if m.ch = '\n' then line + 1 else line) rest) := by
  have hOther : ¬(m.ch = '\x5c' ∧ (!m.isComment) = true) := by
    simpa [Mark.opensPair] using hm
  rw [ofMarks.eq_def]
  simp only [if_neg hOther]
  rfl

/- A pair is kept, unless it joins two lines. -/
theorem ofMarks_pair
    (inComment : Bool)
    (before : Option Char)
    (line : Nat)
    {m : Mark}
    (hm : m.opensPair false = true)
    (n : Mark)
    (rest : List Mark) :
    ofMarks inComment before line (m :: n :: rest) =
      ofTurn inComment false ++
        if n.ch = '\n' then
          ofMarks false n.ch (line + 1) rest
        else
          .char m.ch line :: .char n.ch line ::
            ofMarks false n.ch line rest := by
  rcases Mark.opensPair_iff.mp hm with ⟨hc, hComment, -⟩
  have hEscape : m.ch = '\x5c' ∧ (!false) = true := ⟨hc, rfl⟩
  rw [ofMarks.eq_def]
  simp only [hComment, if_pos hEscape]
  rfl

/- A backslash at the end is kept. -/
theorem ofMarks_lone
    (inComment : Bool)
    (before : Option Char)
    (line : Nat)
    {m : Mark}
    (hm : m.opensPair false = true) :
    ofMarks inComment before line [m] =
      ofTurn inComment false ++ [.char m.ch line] := by
  rcases Mark.opensPair_iff.mp hm with ⟨hc, hComment, -⟩
  have hEscape : m.ch = '\x5c' ∧ (!false) = true := ⟨hc, rfl⟩
  rw [ofMarks.eq_def]
  simp only [hComment, if_pos hEscape]
  rfl

end Piece

------------------------------------------------------------
-- Pairs and Quoting
------------------------------------------------------------

namespace Quoting

/-
  The quoting state between two characters, where `paired`
  tells whether a backslash takes the next one along.  A
  character that is taken is quoted, and apart from that only
  the parenthesis behind a dollar sign is decided.
-/
structure KeepsPairs
    (q : Quoting)
    (paired : Bool)
    (next : Option Char) : Prop where
  tidy : q.IsTidy
  taken : paired = true →
    q.pending = .quotedNext ∨ q.single = true
  held : q.pending = .quotedNext →
    paired = true ∨ next = some '('

theorem keepsPairs_start
    (next : Option Char) :
    start.KeepsPairs false next where
  tidy := isTidy_start
  taken := by simp
  held := by simp [start]

theorem KeepsPairs.step
    {q : Quoting}
    {paired : Bool}
    {c : Char}
    (h : q.KeepsPairs paired (some c))
    (pos : Nat)
    (next : Option Char) :
    (q.step c next).2.KeepsPairs
      (Mark.opensPair paired ⟨pos, c, (q.step c next).1⟩)
      next where
  tidy := h.tidy.step c next
  taken := by
    intro hOpens
    rcases Mark.opensPair_iff.mp hOpens with
      ⟨hc, hComment, hPaired⟩
    have hHeld := h.held
    have hSpec := q.step_spec c next
    generalize (q.step c next).1 = role at hSpec hComment
    generalize (q.step c next).2 = after at hSpec ⊢
    cases hSpec <;> simp_all [Mark.isComment]
  held := by
    intro hPending
    rcases step_pending hPending with
      ⟨hc, hRole, hNothing, hSingle⟩ | ⟨-, hNext⟩
    · refine Or.inl (Mark.opensPair_iff.mpr ⟨hc, ?_, ?_⟩)
      · simp [Mark.isComment, hRole]
      · refine Bool.eq_false_iff.mpr fun hPaired => ?_
        simpa [hNothing, hSingle] using h.taken hPaired
    · exact Or.inr hNext

/- A character that a backslash takes along is quoted. -/
theorem KeepsPairs.quoted
    {q : Quoting}
    {next : Option Char}
    (h : q.KeepsPairs true next)
    (c : Char)
    (behind : Option Char) :
    (q.step c behind).1 = .quoted := by
  have hTaken := h.taken rfl
  have hComment : q.pending ≠ .commentNext := by
    intro hPending
    have hq := h.tidy (inComment_iff.mpr hPending)
    simp [hq, comment] at hTaken
  have hSpec := q.step_spec c behind
  generalize (q.step c behind).1 = role at hSpec ⊢
  generalize (q.step c behind).2 = after at hSpec
  cases hSpec <;> simp_all [isNeutral_iff]

end Quoting

namespace Mark

/- A character is read according to the state before it. -/
theorem isReadBehind_step
    {q : Quoting}
    {paired : Bool}
    {next : Option Char}
    (hq : q.KeepsPairs paired next)
    (pos : Nat)
    (c : Char)
    (behind : Option Char) :
    IsReadBehind paired q.inComment
      ⟨pos, c, (q.step c behind).1⟩ where
  paired := by
    rintro rfl
    exact hq.quoted c behind
  backslash := by
    intro hc
    refine Bool.eq_false_iff.mpr fun hBare => ?_
    have hRole : (q.step c behind).1 = .bare := by
      simpa [isBare] using hBare
    exact (Quoting.step_bare hRole).2.2.1 hc
  hash := by
    intro hComment hBefore
    exact (Quoting.step_hash (by simpa [isComment] using hComment)
      hBefore).1
  feed := by
    intro hComment hBefore
    rw [hq.tidy hBefore, Quoting.step_comment] at hComment ⊢
    split at hComment
    next hc =>
      subst hc
      rfl
    next => simp [isComment] at hComment

theorem areRead_scanFrom
    {q : Quoting}
    {paired : Bool}
    (pos : Nat)
    {text : Text}
    (hq : q.KeepsPairs paired text.head?) :
    AreRead paired q.inComment (scanFrom q pos text) := by
  induction text generalizing q paired pos with
  | nil => exact True.intro
  | cons c rest ih =>
      have hRest := ih (pos + c.utf8Size)
        (hq.step pos rest.head?)
      rw [hq.tidy.inComment_step] at hRest
      exact ⟨isReadBehind_step hq pos c rest.head?, hRest⟩

/- The marks of a script keep to all this. -/
theorem areRead_scan
    (script : Text) :
    AreRead false false (scan script) :=
  areRead_scanFrom 0 (Quoting.keepsPairs_start _)

------------------------------------------------------------
-- Places
------------------------------------------------------------

theorem pos_le_of_mem_scanFrom
    {q : Quoting}
    {pos : Nat}
    {text : Text}
    {m : Mark}
    (hm : m ∈ scanFrom q pos text) :
    pos ≤ m.pos := by
  induction text generalizing q pos with
  | nil => simp [scanFrom] at hm
  | cons c rest ih =>
      rcases List.mem_cons.mp hm with rfl | hm
      · exact Nat.le_refl pos
      · exact Nat.le_trans (Nat.le_add_right _ _) (ih hm)

theorem pairwise_pos_scanFrom
    (q : Quoting)
    (pos : Nat)
    (text : Text) :
    (scanFrom q pos text).Pairwise fun m n => m.pos < n.pos := by
  induction text generalizing q pos with
  | nil => exact .nil
  | cons c rest ih =>
      refine .cons (fun n hn => ?_) (ih _ _)
      have hBehind := pos_le_of_mem_scanFrom hn
      have hSize := c.utf8Size_pos
      simp only
      omega

/- No two marks of a script stand in the same place. -/
theorem pairwise_pos_scan
    (script : Text) :
    (scan script).Pairwise fun m n => m.pos < n.pos :=
  pairwise_pos_scanFrom .start 0 script

end Mark

end ShellToC
