import ShellToC.Proofs.FaultReports
import ShellToC.Proofs.TextParts

/-
  This file shows what the marks of faults are to C: one
  comment each, and nothing besides, unless the name of the
  script ends the comment early.

  Comment ends are parted in the message of a mark, and what
  stands around the parts of a mark makes up no new ones.
  The name of the file is written as it is.

  Key definitions include:
    * `Text.IsOneComment`

  Main declarations:
    * `Diagnostic.isOneComment_markerText_iff`
    * `Draft.marks_isOneComment_iff`
-/

namespace ShellToC

open Lexeme

------------------------------------------------------------
-- Comments
------------------------------------------------------------

namespace Text

/-
  The text is one comment: a comment is opened at its start
  and ended at its end, and nowhere else is one ended.
-/
structure IsOneComment
    (text : Text) : Prop where
  exists_inside : ∃ inside, text = "/*" ++ inside ++ "*/"
  ends_once : ∀ before after,
    text = before ++ "*/" ++ after → after = []

/- No comment end stands in two texts, nor across their seam. -/
theorem occursIn_commentEnd_append
    {a b : Text}
    (ha : occursIn "*/" a = false)
    (hb : occursIn "*/" b = false)
    (hSeam : a.getLast? = some '*' → b.head? ≠ some '/') :
    occursIn "*/" (a ++ b) = false := by
  induction a with
  | nil => exact hb
  | cons c a ih =>
      have hCons := (occursIn_commentEnd_cons c a).mp ha
      rw [List.cons_append]
      refine (occursIn_commentEnd_cons c (a ++ b)).mpr ⟨?_, ?_⟩
      · intro hc
        cases a with
        | nil =>
            apply hSeam
            simp [hc]
        | cons d a => exact hCons.1 hc
      · apply ih hCons.2
        intro hLast
        apply hSeam
        rw [List.getLast?_cons, hLast]
        rfl

/- What holds no comment end, with one behind it, ends one once. -/
theorem eq_nil_of_commentEnd
    {text before after : Text}
    (hText : occursIn "*/" (text ++ ['*']) = false)
    (h : text ++ "*/" = before ++ "*/" ++ after) :
    after = [] := by
  have hChars : Text.ofString "*/" = ['*', '/'] :=
    ofString_ofList _
  apply Classical.byContradiction
  intro hAfter
  rw [hChars] at h hText
  -- Without its last character, the text still holds the earlier end.
  have hFront : text ++ ['*'] =
      before ++ (['*', '/'] ++ after.dropLast) := by
    have hDrop := congrArg List.dropLast h
    rw [List.dropLast_append_of_ne_nil (by simp),
      List.append_assoc,
      List.dropLast_append_of_ne_nil (by simp),
      List.dropLast_append_of_ne_nil hAfter] at hDrop
    exact hDrop
  have hOccurs : occursIn ['*', '/'] (text ++ ['*']) = true := by
    rw [occursIn_iff, hFront]
    exact ⟨before, after.dropLast, by simp⟩
  rw [hText] at hOccurs
  contradiction

end Text

------------------------------------------------------------
-- Marks
------------------------------------------------------------

namespace Diagnostic

/- What a mark says between the two ends of its comment. -/
def markerInside
    (file : Text)
    (d : Diagnostic) : Text :=
  " shtoc: " ++ file ++ ":" ++ Text.ofNat d.line ++ ": " ++
    Line.partCommentEnds d.message ++ " "

theorem markerText_eq
    (file : Text)
    (d : Diagnostic) :
    d.markerText file = "/*" ++ d.markerInside file ++ "*/" := by
  simp [markerText, markerInside, Text.ofString_eq]

/-
  Up to its last character, a mark holds no comment end if
  the name of the file holds none.  Behind the name, the line
  and the message there is no slash that a star could meet.
-/
theorem occursIn_markerInside
    {file : Text}
    (hFile : Text.occursIn "*/" file = false)
    (d : Diagnostic) :
    Text.occursIn "*/" ("/*" ++ d.markerInside file ++ ['*']) =
      false := by
  have hLine := Line.occursIn_commentEnd_ofNat d.line
  have hEnd : Text.occursIn "*/"
      (Line.partCommentEnds d.message ++ [' ', '*']) = false := by
    apply Text.occursIn_commentEnd_append
    · exact Line.occursIn_partCommentEnds d.message
    · decide +kernel
    · intro _
      simp
  have hMessage : Text.occursIn "*/" (Text.ofNat d.line ++
      ([':', ' '] ++
        (Line.partCommentEnds d.message ++ [' ', '*']))) = false := by
    apply Text.occursIn_commentEnd_append hLine
    · apply Text.occursIn_commentEnd_append _ hEnd
      · intro hLast
        simp at hLast
      · decide +kernel
    · intro _
      simp
  have hName : Text.occursIn "*/" (file ++ ([':'] ++
      (Text.ofNat d.line ++ ([':', ' '] ++
        (Line.partCommentEnds d.message ++ [' ', '*']))))) =
          false := by
    apply Text.occursIn_commentEnd_append hFile
    · apply Text.occursIn_commentEnd_append _ hMessage
      · intro hLast
        simp at hLast
      · decide +kernel
    · intro _
      simp
  have hAll : Text.occursIn "*/" ("/* shtoc: ".toList ++ (file ++
      ([':'] ++ (Text.ofNat d.line ++ ([':', ' '] ++
        (Line.partCommentEnds d.message ++ [' ', '*'])))))) =
          false := by
    apply Text.occursIn_commentEnd_append _ hName
    · intro hLast
      simp at hLast
    · decide +kernel
  simpa [markerInside, Text.ofString_eq] using hAll

/- A mark is one comment exactly if the name of the file ends none. -/
theorem isOneComment_markerText_iff
    (file : Text)
    (d : Diagnostic) :
    (d.markerText file).IsOneComment ↔
      Text.occursIn "*/" file = false := by
  constructor
  · intro h
    rw [Bool.eq_false_iff, ne_eq, Text.occursIn_iff]
    rintro ⟨before, after, hFile⟩
    have hSplit : d.markerText file =
        ("/* shtoc: " ++ before) ++ "*/" ++
          (after ++ (":" ++ Text.ofNat d.line ++ ": " ++
            Line.partCommentEnds d.message ++ " */")) := by
      rw [markerText, ← hFile]
      simp only [List.append_assoc]
    have hNil := h.ends_once _ _ hSplit
    rw [List.append_eq_nil_iff] at hNil
    simp [Text.ofString_eq] at hNil
  · intro hFile
    refine ⟨⟨_, d.markerText_eq file⟩, ?_⟩
    intro before after hSplit
    rw [markerText_eq] at hSplit
    exact Text.eq_nil_of_commentEnd (occursIn_markerInside hFile d)
      hSplit

end Diagnostic

namespace Draft

/- Every mark of a script is the mark of an error that is reported. -/
theorem exists_of_mem_marks
    {file unit script mark : Text}
    (h : mark ∈ Row.marks (ofScript file unit script).rows.toList) :
    ∃ d ∈ (ofScript file unit script).diagnostics,
      d.isError = true ∧ mark = d.markerText file := by
  rcases ofScript_eq file unit script with ⟨log, hScript⟩
  rw [hScript] at h ⊢
  rw [marks_finish_addCommands] at h
  rcases List.mem_map.mp h with ⟨d, hd, rfl⟩
  rcases List.mem_filter.mp hd with ⟨hMem, hError⟩
  exact ⟨d, Array.mem_toList_iff.mp hMem, hError, rfl⟩

/-
  A mark in the program of a script starts as a comment and
  ends as one.  It is one comment exactly if the name of the
  file holds no comment end.  Then C reads nothing in it,
  and reads what follows as if it were not there.
-/
theorem marks_isOneComment_iff
    (file unit script mark : Text)
    (hMark : mark ∈
      Row.marks (ofScript file unit script).rows.toList) :
    (∃ inside, mark = "/*" ++ inside ++ "*/") ∧
    (mark.IsOneComment ↔ Text.occursIn "*/" file = false) ∧
    (Text.occursIn "*/" file = false →
      ∀ rest, ofText (mark ++ rest) = ofText rest) := by
  rcases exists_of_mem_marks hMark with ⟨d, -, -, rfl⟩
  refine ⟨⟨_, d.markerText_eq file⟩,
    d.isOneComment_markerText_iff file, ?_⟩
  intro hFile
  exact Line.readsWhole_marker hFile d.line d.message

/- A comment end in the script does not end the comment. -/
theorem marks_isOneComment_iff_of_case :
    let file : Text := "run.sh"
    let script : Text := "case x in */y) esac"
    let mark : Text :=
      "/* shtoc: run.sh:1: unsupported construct: case x in * /y) esac */"
    mark ∈ Row.marks (ofScript file "  " script).rows.toList ∧
    Text.occursIn "*/" file = false ∧
    mark.IsOneComment ∧
    ∀ rest, ofText (mark ++ rest) = ofText rest := by
  intro file script mark
  have hMark : mark ∈
      Row.marks (ofScript file "  " script).rows.toList := by
    simp only [file, script, mark]
    repeat rw [Text.ofString_ofList]
    decide +kernel
  have hFile : Text.occursIn "*/" file = false := by
    decide +kernel
  rcases marks_isOneComment_iff file "  " script mark hMark with
    ⟨-, hOne, hInert⟩
  exact ⟨hMark, hFile, hOne.mpr hFile, hInert hFile⟩

/-
  A comment end in the name of the file ends the comment, and
  C goes on to read the rest of the mark.
-/
theorem marks_ended_by_file :
    let mark : Text :=
      "/* shtoc: a*/b.sh:1: `fi` has no matching open block */"
    Row.marks (ofScript "a*/b.sh" "  " "fi").rows.toList = [mark] ∧
    ¬ mark.IsOneComment ∧
    (ofText mark).head? = some (.word "b") := by
  intro mark
  refine ⟨?_, ?_, ?_⟩
  · simp only [mark]
    repeat rw [Text.ofString_ofList]
    decide +kernel
  · intro hOne
    have hSplit : mark = "/* shtoc: a" ++ "*/" ++
        "b.sh:1: `fi` has no matching open block */" := by
      simp only [mark]
      repeat rw [Text.ofString_ofList]
      decide +kernel
    have hNil := hOne.ends_once _ _ hSplit
    rw [Text.ofString_ofList] at hNil
    contradiction
  · simp only [mark]
    repeat rw [Text.ofString_ofList]
    decide +kernel

end Draft

end ShellToC
