import ShellToC.Proofs.InkShares
import ShellToC.Script.Form

/-
  This file compares the text of a statement with the text that
  its command keeps.

  Cutting a script takes the bare semicolons away and trims the
  statements.  A command drops a final semicolon once more, and
  it does not ask whether it is quoted.  So the only text that
  is lost is a quoted semicolon at the end of a statement, with
  the blanks before it.

  Main declarations:
    * `Command.trimStatement_of_getLast?`
    * `Command.trimStatement_concat`
    * `Statement.kept_text_eq_iff`
    * `Statement.kept_text_of_escaped`
-/

namespace ShellToC

------------------------------------------------------------
-- Trimmed Statements
------------------------------------------------------------

namespace Command

/- A trimmed text without a final semicolon is kept. -/
theorem trimStatement_of_getLast?
    {text : Text}
    (hTrimmed : text.IsTrimmed)
    (hLast : text.getLast? ≠ some ';') :
    trimStatement text = text := by
  have hTail : Text.dropTail? ";" text = none := by
    refine Option.eq_none_iff_forall_ne_some.mpr fun rest h => ?_
    have hText := Text.dropTail?_eq_some_iff.mp h
    rw [Text.ofString_ofList] at hText
    exact hLast (by rw [hText]; simp)
  rw [trimStatement, Text.trim_of_isTrimmed hTrimmed, hTail]

/- A final semicolon is dropped with the blanks before it. -/
theorem trimStatement_concat
    {rest : Text}
    (hTrimmed : (rest ++ [';']).IsTrimmed) :
    trimStatement (rest ++ [';']) = Text.trimEnd rest := by
  have hTail : Text.dropTail? ";" (rest ++ [';']) = some rest := by
    refine Text.dropTail?_eq_some_iff.mpr ?_
    rw [Text.ofString_ofList]
  rw [trimStatement, Text.trim_of_isTrimmed hTrimmed, hTail]

end Command

------------------------------------------------------------
-- Statements of a Script
------------------------------------------------------------

namespace Statement

/- A semicolon of a statement is quoted, except in comments. -/
theorem Source.role_of_semicolon
    {script : Text}
    {records : List (List Mark)}
    {n : Nat}
    {s : Statement}
    (h : AreRecords script records)
    (source : Source (Mark.scan script) records n s)
    (hHash : s.text.head? ≠ some '#')
    {m : Mark}
    (hm : m ∈ source.own)
    (hc : m.ch = ';') :
    m.role = .quoted := by
  have hRecord : m ∈ source.record := by
    rw [source.record_eq]
    simp [hm]
  have hSeparates := h.recorded.separates_eq_false m
    (List.mem_flatten.mpr ⟨_, source.mem_records, hRecord⟩)
  have hComment : m.isComment = false :=
    Bool.eq_false_iff.mpr fun hComment =>
      hHash (source.before_of_isComment h hRecord hComment).2
  cases hRole : m.role <;>
    simp_all [Mark.separates, Mark.isBareChar, Mark.isBare,
      Mark.isComment]

/-
  A command keeps the text of a statement, unless it ends in a
  quoted semicolon.  Then this semicolon is lost, and nothing
  else but the blanks before it.
-/
theorem kept_text_eq_iff
    {script : Text}
    {n : Nat}
    {s : Statement}
    (hs : (ofScript script)[n]? = some s)
    (hHash : s.text.head? ≠ some '#') :
    ∃ m, lastMark? script n = some m ∧
      s.text.getLast? = some m.ch ∧
      ((Command.ofText s.text).text = s.text ↔
        ¬(m.ch = ';' ∧ m.role = .quoted)) ∧
      (m.ch = ';' → ∃ blanks, Text.isAllBlank blanks = true ∧
        s.text =
          (Command.ofText s.text).text ++ (blanks ++ [';'])) := by
  rcases exists_areRecords script with ⟨records, h⟩
  rcases h.nonempty_source hs with ⟨source⟩
  rcases List.eq_nil_or_concat source.own with hNil | ⟨own, m, hOwn⟩
  · exact absurd hNil source.isTrimmed_own.1
  have hText : s.text = Mark.chars own ++ [m.ch] := by
    rw [← source.chars_own, hOwn]
    simp [Mark.chars]
  have hTrimmed := (isTrimmed_isolate (Text.isTrimmed_trim _)
    (List.mem_of_getElem? source.text_at)).2
  refine ⟨m, by simp [source.lastMark?_eq h hs, hOwn],
    by simp [hText], ?_⟩
  simp only [Command.ofText]
  by_cases hc : m.ch = ';'
  · have hRole := source.role_of_semicolon h hHash
      (by simp [hOwn]) hc
    rcases Text.trimEnd_split (Mark.chars own) with
      ⟨blanks, hBlanks, hSplit⟩
    rw [hc] at hText
    rw [hText] at hTrimmed ⊢
    rw [Command.trimStatement_concat hTrimmed]
    refine ⟨⟨fun hKept => ?_, ?_⟩, fun _ => ⟨blanks, hBlanks, ?_⟩⟩
    · -- The kept text is shorter by the semicolon at least.
      have hLength := congrArg List.length hSplit
      have hShort := congrArg List.length hKept
      simp only [List.length_append, List.length_singleton]
        at hLength hShort
      omega
    · exact fun hNot => absurd ⟨hc, hRole⟩ hNot
    · rw [← List.append_assoc, ← hSplit]
  · have hLast : s.text.getLast? ≠ some ';' := by simp [hText, hc]
    rw [Command.trimStatement_of_getLast? hTrimmed hLast]
    simp [hc]

/- A semicolon before the closing quote does not come last. -/
theorem kept_text_eq_iff_of_quotes :
    let script : Text := "then echo 'a; b;' ; c"
    let s : Statement := ⟨"echo 'a; b;'", 1⟩
    (ofScript script)[1]? = some s ∧
      s.text.head? ≠ some '#' ∧
      ∃ m, lastMark? script 1 = some m ∧
        s.text.getLast? = some m.ch ∧
        ((Command.ofText s.text).text = s.text ↔
          ¬(m.ch = ';' ∧ m.role = .quoted)) ∧
        (m.ch = ';' → ∃ blanks, Text.isAllBlank blanks = true ∧
          s.text =
            (Command.ofText s.text).text ++ (blanks ++ [';'])) := by
  intro script s
  have hScript : (ofScript script)[1]? = some s ∧
      s.text.head? ≠ some '#' := by
    unfold script s
    repeat rw [Text.ofString_ofList]
    decide +kernel
  exact ⟨hScript.1, hScript.2,
    kept_text_eq_iff hScript.1 hScript.2⟩

/- An escaped semicolon is lost, and its backslash is kept. -/
theorem kept_text_of_escaped :
    let script : Text := "echo a\\;"
    ofScript script = [⟨script, 1⟩] ∧
      (Command.ofText script).text = "echo a\\" := by
  intro script
  unfold script Command.ofText Command.trimStatement
  repeat rw [Text.ofString_ofList]
  decide +kernel

end Statement

end ShellToC
