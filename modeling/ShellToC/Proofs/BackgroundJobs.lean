import ShellToC.Proofs.ListOperators
import ShellToC.Proofs.Patterns

/-
  This file says when the ampersand that makes a job of a
  statement is bare.

  The rule for jobs looks at the last character alone.  So the
  ampersand may be escaped, or stand in quotes, in a
  substitution or in a comment that the command before it
  leaves open.  Only the rule for `echo` asks whether it is
  bare.

  Key definitions include:
    * `Quoting.isEndedBy`

  Main declarations:
    * `Quoting.isOpen_behind_blanks_iff`
    * `Mark.getLast?_scan_concat`
    * `Command.background_isBare_iff`
    * `Command.background_of_escaped`
-/

namespace ShellToC

------------------------------------------------------------
-- Blanks
------------------------------------------------------------

namespace Quoting

theorem all_isPlain_of_all_isBlank
    {blanks : Text}
    (h : blanks.all Text.isBlank = true) :
    blanks.all isPlain = true := by
  rw [List.all_eq_true] at h ⊢
  exact fun c hc => isPlain_of_isBlank (h c hc)

/- A blank closes neither quotes nor substitutions. -/
theorem isNeutral_step_blank
    {q : Quoting}
    (hq : q.isNeutral = false)
    {c : Char}
    (hc : Text.isBlank c = true)
    (next : Option Char) :
    (q.step c next).2.isNeutral = false := by
  have hSpec := q.step_spec c next
  generalize (q.step c next).1 = role at hSpec
  generalize (q.step c next).2 = after at hSpec ⊢
  cases hSpec with
  | decided _ => exact hq
  | remark _ _ => exact hq
  | hash hNeutral _ _ _ => simp [hq] at hNeutral
  | bare hNeutral _ _ => simp [hq] at hNeutral
  | single _ _ =>
      have hQuote : c ≠ '\x27' := Text.ne_of_isBlank hc (by decide)
      simp [isNeutral, hQuote]
  | backslash _ _ _ => exact hq
  | inside _ _ _ _ _ _ hBlank => exact hBlank hc

theorem isNeutral_behind_blanks
    {q : Quoting}
    (hq : q.isNeutral = false)
    (next : Option Char)
    {blanks : Text}
    (hBlanks : blanks.all Text.isBlank = true) :
    (q.behind next blanks).isNeutral = false := by
  induction blanks generalizing q with
  | nil => exact hq
  | cons c rest ih =>
      simp only [List.all_cons, Bool.and_eq_true] at hBlanks
      exact ih (isNeutral_step_blank hq hBlanks.1 _) hBlanks.2

/-
  Whether blanks use up what is decided about the characters
  that follow.  An escape takes one blank with it, and a
  comment takes all of them up to a line feed.
-/
def isEndedBy
    (q : Quoting)
    (blanks : Text) : Bool :=
  match q.pending with
  | .nothing => true
  | .quotedNext => !blanks.isEmpty
  | .commentNext => blanks.contains '\n'

/- Without blanks, what is decided stays so. -/
theorem isEndedBy_nil
    (q : Quoting) :
    q.isEndedBy [] = true ↔ q.pending = .nothing := by
  unfold isEndedBy
  split <;> simp_all

/- A comment that blanks do not end goes on behind them. -/
theorem isOpen_behind_comment_iff
    {q : Quoting}
    (hq : q.isNeutral = true)
    (hPending : q.pending = .commentNext)
    (next : Option Char)
    {blanks : Text}
    (hBlanks : blanks.all Text.isBlank = true) :
    (q.behind next blanks).IsOpen ↔ '\n' ∈ blanks := by
  induction blanks with
  | nil =>
      refine iff_of_false (fun hOpen => ?_) List.not_mem_nil
      have hNothing : q.pending = .nothing := hOpen.pending
      simp [hPending] at hNothing
  | cons c rest ih =>
      simp only [List.all_cons, Bool.and_eq_true] at hBlanks
      rw [behind]
      by_cases hc : c = '\n'
      · subst hc
        rw [step_lineFeed hq (by simp [hPending])]
        refine iff_of_true ?_ List.mem_cons_self
        exact isOpen_start.behind next
          (all_isPlain_of_all_isBlank hBlanks.2)
      · have hStep : q.step c (rest.head?.or next) =
            (.comment, q) := by
          simp [step, hPending, hc]
        rw [hStep, ih hBlanks.2, List.mem_cons]
        simp [Ne.symm hc]

/-
  Behind blanks nothing is open if neither quotes nor
  substitutions are open before them, and if they use up what
  is decided there.
-/
theorem isOpen_behind_blanks_iff
    (q : Quoting)
    (next : Option Char)
    {blanks : Text}
    (hBlanks : blanks.all Text.isBlank = true) :
    (q.behind next blanks).IsOpen ↔
      q.isNeutral = true ∧ q.isEndedBy blanks = true := by
  cases hq : q.isNeutral with
  | false =>
      have hBehind := isNeutral_behind_blanks hq next hBlanks
      refine iff_of_false (fun hOpen => ?_) (by simp)
      simp [hOpen.neutral] at hBehind
  | true =>
      rw [eq_self_iff_true, true_and]
      cases hPending : q.pending with
      | nothing =>
          have hOpen := IsOpen.behind ⟨hq, hPending⟩ next
            (all_isPlain_of_all_isBlank hBlanks)
          simp [isEndedBy, hPending, hOpen]
      | quotedNext =>
          cases blanks with
          | nil =>
              rw [isEndedBy_nil]
              exact ⟨IsOpen.pending, fun h => ⟨hq, h⟩⟩
          | cons c rest =>
              simp only [List.all_cons, Bool.and_eq_true]
                at hBlanks
              have hOpen : ((q.step c
                  (rest.head?.or next)).2).IsOpen := by
                rw [step, if_pos hPending]
                exact ⟨hq, rfl⟩
              rw [behind]
              exact iff_of_true (hOpen.behind next
                (all_isPlain_of_all_isBlank hBlanks.2))
                (by simp [isEndedBy, hPending])
      | commentNext =>
          rw [isOpen_behind_comment_iff hq hPending next hBlanks]
          simp [isEndedBy, hPending]

/- What follows matters only if it is an opening parenthesis. -/
theorem behind_congr_next
    {next other : Option Char}
    (h : next = some '(' ↔ other = some '(')
    (q : Quoting)
    (text : Text) :
    q.behind next text = q.behind other text := by
  induction text generalizing q with
  | nil => rfl
  | cons c rest ih =>
      have hStep : q.step c (rest.head?.or next) =
          q.step c (rest.head?.or other) := by
        refine step_congr_next q c fun _ => ?_
        cases rest <;> simp [h]
      rw [behind, behind, hStep, ih]

end Quoting

------------------------------------------------------------
-- Last Marks
------------------------------------------------------------

/- The mark of the last character is made behind all others. -/
theorem Mark.getLast?_scan_concat
    (text : Text)
    (c : Char) :
    ∃ m, (Mark.scan (text ++ [c])).getLast? = some m ∧
      m.ch = c ∧
      m.role =
        ((Quoting.start.behind (some c) text).step c none).1 := by
  have hChars := Mark.chars_scanFrom .start 0 (text ++ [c])
  rcases List.eq_nil_or_concat (Mark.scan (text ++ [c])) with
    hNil | ⟨marks, m, hScan⟩
  · rw [← Mark.scan, hNil] at hChars
    simp [Mark.chars] at hChars
  · rw [List.concat_eq_append] at hScan
    rcases Pipeline.role_of_scanFrom hScan with ⟨hText, hRole⟩
    rcases List.append_inj' hText rfl with ⟨rfl, hLast⟩
    cases hLast
    exact ⟨m, by simp [hScan], rfl, hRole⟩

------------------------------------------------------------
-- Jobs
------------------------------------------------------------

/- A job is no echo. -/
theorem Form.echo?_eq_none
    {text command : Text}
    (h : ofText text = .background command) :
    echo? text = none := by
  cases hEcho : echo? text with
  | none => rfl
  | some form =>
      have hBackground : form ≠ .background command := by
        rintro rfl
        simp [echo?] at hEcho
      rw [ofText] at h
      split at h
      · contradiction
      · cases hPipeline : pipeline? text with
        | none =>
            simp [rules, hPipeline, hEcho, hBackground] at h
        | some found =>
            have hFound : found = .background command := by
              simpa [rules, hPipeline] using h
            simp [hFound, pipeline?] at hPipeline

namespace Command

/-
  A statement that is made a job ends in an ampersand, with
  the command and blanks before it.  This ampersand is bare
  exactly if the command leaves neither quotes nor
  substitutions open, and if the blanks use up an escape or a
  comment at its end.  An echo without arithmetic is made a
  job only by a bare ampersand.
-/
theorem background_isBare_iff
    {text command : Text}
    (h : (ofText text).form = .background command) :
    ∃ blanks m,
      blanks.all Text.isBlank = true ∧
      (ofText text).text = command ++ (blanks ++ ['&']) ∧
      (Mark.scan (ofText text).text).getLast? = some m ∧
      m.ch = '&' ∧
      (m.isBare = true ↔
        (Quoting.start.behind none command).isNeutral = true ∧
        (Quoting.start.behind none command).isEndedBy blanks =
          true) ∧
      (Pattern.keyword? "echo"
          (Pattern.optional? Pattern.restOfLine?)
          (ofText text).text ≠ none →
        Text.occursIn "$((" (ofText text).text = false →
        m.isBare = true) := by
  have hForm : Form.ofText (ofText text).text =
      .background command := h
  generalize (ofText text).text = kept at hForm ⊢
  rcases Pattern.exists_of_backgrounded?
    (Form.backgrounded?_of_ofText hForm) with
    ⟨blanks, hBlanks, hText, -⟩
  rw [← List.append_assoc] at hText
  rcases Mark.getLast?_scan_concat (command ++ blanks) '&' with
    ⟨m, hLast, hChar, hRole⟩
  rw [← hText] at hLast
  have hNext : blanks.head?.or (some '&') = some '(' ↔
      (none : Option Char) = some '(' := by
    cases blanks with
    | nil => simp
    | cons c rest =>
        simp only [List.all_cons, Bool.and_eq_true] at hBlanks
        have hc : c ≠ '(' :=
          Text.ne_of_isBlank hBlanks.1 (by decide)
        simp [hc]
  refine ⟨blanks, m, hBlanks, ?_, hLast, hChar, ?_, ?_⟩
  · rw [hText, List.append_assoc]
  · have hBare : m.isBare = true ↔ m.role = .bare := by
      simp [Mark.isBare]
    rw [hBare, hRole, Quoting.step_operator_iff (.inl rfl),
      Quoting.behind_append, Quoting.behind_congr_next hNext,
      Quoting.isOpen_behind_blanks_iff _ _ hBlanks]
  · intro hEcho hArith
    have hNone := Form.echo?_eq_none hForm
    rw [Form.echo?] at hNone
    split at hNone
    next hEnds =>
      rw [hArith, Bool.false_or, Form.endsInBackground, hLast]
        at hEnds
      simp only [Option.any_some, Mark.isBareChar,
        Bool.and_eq_true] at hEnds
      exact hEnds.1
    next => simp [hEcho] at hNone

/- A blank is escaped, and the ampersand behind it is bare. -/
theorem background_isBare_iff_of_blank :
    let text : Text := "sleep '5 &' \\ &;"
    let command : Text := "sleep '5 &' \\"
    (ofText text).form = .background command ∧
    ∃ blanks m,
      blanks.all Text.isBlank = true ∧
      (ofText text).text = command ++ (blanks ++ ['&']) ∧
      (Mark.scan (ofText text).text).getLast? = some m ∧
      m.ch = '&' ∧
      (m.isBare = true ↔
        (Quoting.start.behind none command).isNeutral = true ∧
        (Quoting.start.behind none command).isEndedBy blanks =
          true) ∧
      (Pattern.keyword? "echo"
          (Pattern.optional? Pattern.restOfLine?)
          (ofText text).text ≠ none →
        Text.occursIn "$((" (ofText text).text = false →
        m.isBare = true) := by
  intro text command
  have hForm : (ofText text).form = .background command := by
    unfold text command
    repeat rw [Text.ofString_ofList]
    decide +kernel
  exact ⟨hForm, background_isBare_iff hForm⟩

/- An escaped ampersand makes a job, and its backslash is kept. -/
theorem background_of_escaped :
    let text : Text := "ls \\&"
    (ofText text).form = .background "ls \\" ∧
      (Mark.scan (ofText text).text).getLast? =
        some ⟨4, '&', .quoted⟩ := by
  intro text
  unfold text
  repeat rw [Text.ofString_ofList]
  decide +kernel

end Command

end ShellToC
