import ShellToC.Proofs.LeadingKeyword
import ShellToC.Proofs.Records

/-
  This file accounts for the ink of a script: for all of its
  characters that are not blank.

  Cutting a script into statements drops the bare semicolons and
  the backslashes that join two lines.  All other ink is found
  in the statements, in the same order, and so each statement
  has its own share of the ink of the script.

  Key definitions include:
    * `Text.ink`
    * `Mark.inked`

  Main declarations:
    * `Mark.Recorded.inked_eq`
    * `Statement.ink_isolate`
    * `Statement.texts_hold_ink`
-/

namespace ShellToC

------------------------------------------------------------
-- Ink of a Text
------------------------------------------------------------

namespace Text

/- The characters of a text that are not blank. -/
def ink
    (text : Text) : Text :=
  text.filter (! isBlank ·)

@[simp] theorem ink_nil : ink [] = [] := rfl

@[simp] theorem ink_append
    (a b : Text) :
    ink (a ++ b) = ink a ++ ink b :=
  List.filter_append ..

theorem ink_of_isAllBlank
    {text : Text}
    (h : text.isAllBlank = true) :
    ink text = [] := by
  refine List.filter_eq_nil_iff.mpr fun c hc => ?_
  simp [List.all_eq_true.mp h c hc]

/- Trimming takes no ink away. -/
@[simp] theorem ink_trimStart
    (text : Text) :
    ink (trimStart text) = ink text := by
  rcases trimStart_split text with ⟨lead, hLead, hText⟩
  calc ink (trimStart text)
      = ink (lead ++ trimStart text) := by
        rw [ink_append, ink_of_isAllBlank hLead,
          List.nil_append]
    _ = ink text := by rw [← hText]

@[simp] theorem ink_trim
    (text : Text) :
    ink (trim text) = ink text := by
  rcases trim_split text with
    ⟨lead, tail, hLead, hTail, hText⟩
  calc ink (trim text)
      = ink (lead ++ (trim text ++ tail)) := by
        rw [ink_append, ink_append, ink_of_isAllBlank hLead,
          ink_of_isAllBlank hTail, List.nil_append,
          List.append_nil]
    _ = ink text := by rw [← hText]

end Text

------------------------------------------------------------
-- Ink of a Script
------------------------------------------------------------

namespace Mark

/-
  The marks of a script without its blanks, its bare semicolons
  and the backslashes that join two lines.  `paired` tells
  whether the mark before them takes the first one along.
-/
def inked
    (paired : Bool) : List Mark → List Mark
  | [] => []
  | m :: rest =>
      let behind := inked (m.opensPair paired) rest
      let joins :=
        m.opensPair paired && rest.head?.any (·.ch == '\n')
      if Text.isBlank m.ch || m.isBareChar ';' || joins then
        behind
      else
        m :: behind

/- The ink of the marks is that of their text. -/
theorem chars_filter_isInk
    (marks : List Mark) :
    chars (marks.filter isInk) = Text.ink (chars marks) := by
  rw [chars, chars, Text.ink, List.filter_map]
  rfl

/- The ink of a mark that is not dropped. -/
theorem inked_cons
    {paired : Bool}
    {m : Mark}
    {rest : List Mark}
    (hSeparates : m.isBareChar ';' = false)
    (hJoins : (m.opensPair paired &&
      rest.head?.any (·.ch == '\n')) = false) :
    inked paired (m :: rest) =
      [m].filter isInk ++ inked (m.opensPair paired) rest := by
  rw [inked]
  simp only [hSeparates, hJoins, Bool.or_false]
  cases hBlank : Text.isBlank m.ch <;> simp [isInk, hBlank]

/- The ink of a script is that of its records. -/
theorem Recorded.inked_eq
    {paired inComment : Bool}
    {marks : List Mark}
    {records : List (List Mark)}
    (h : Recorded paired inComment marks records) :
    inked paired marks = records.flatten.filter isInk := by
  induction h with
  | nil => rfl
  | @kept paired _ m rest record records _ hSeparates hJoint _
      ih =>
      have hSemicolon : m.isBareChar ';' = false :=
        (Bool.or_eq_false_iff.mp hSeparates).2
      have hJoins := (Bool.or_eq_false_iff.mp hJoint).1
      rw [inked_cons hSemicolon hJoins, ih,
        ← List.filter_append]
      rfl
  | @joined paired m rest records _ hJoint _ ih =>
      rw [inked, ← ih, if_pos]
      rcases (Bool.or_eq_true _ _).mp hJoint with hJoins | hFeed
      · simp [hJoins]
      · have hc : m.ch = '\n' := by
          simpa using ((Bool.and_eq_true _ _).mp hFeed).2
        rw [hc]
        rfl
  | @separated paired m rest records hSeparates _ ih =>
      have hDropped :
          (Text.isBlank m.ch || m.isBareChar ';') = true := by
        rcases (Bool.or_eq_true _ _).mp hSeparates with hm | hm
        · rw [(isBareChar_iff.mp hm).2]
          rfl
        · simp [hm]
      have hOpens : m.opensPair paired = false := by
        rcases (Bool.or_eq_true _ _).mp hSeparates with hm | hm <;>
          simp [opensPair, (isBareChar_iff.mp hm).2]
      rw [inked, hDropped, hOpens, ih]
      rfl
  | @ended paired m rest records hm _ ih =>
      have hc := (isBareChar_iff.mp hm).2
      have hOpens : m.opensPair paired = false := by
        simp [opensPair, hc]
      rw [inked_cons (by simp [isBareChar, hc])
        (by simp [hOpens]), hOpens, ih, ← List.filter_append]
      rfl
  | turned _ _ _ _ ih => exact ih

end Mark

------------------------------------------------------------
-- Ink of the Statements
------------------------------------------------------------

namespace Statement

/- Cutting off the leading keywords takes no ink away. -/
theorem ink_isolate
    (text : Text) :
    Text.ink (isolate text).flatten = Text.ink text := by
  fun_induction isolate text with
  | case1 text hEmpty => simp_all
  | case2 text hEmpty keyword rest hKeyword ih =>
      rcases (leadingKeyword?_eq_some hKeyword).2 with
        ⟨b, tail, hb, rfl, rfl⟩
      have hBlank : Text.ink (b :: tail) = Text.ink tail := by
        simp [Text.ink, hb]
      rw [List.flatten_cons, Text.ink_append, ih,
        Text.ink_trimStart, Text.ink_append, hBlank]
  | case3 text hEmpty hKeyword => simp

/- The parts of a trimmed text are trimmed, and none is empty. -/
theorem isTrimmed_isolate
    {text : Text}
    (hTrimmed : text.IsTrimmed)
    {part : Text}
    (hPart : part ∈ isolate text) :
    part ≠ [] ∧ part.IsTrimmed := by
  fun_induction isolate text with
  | case1 text hEmpty => simp at hPart
  | case2 text hEmpty keyword rest hKeyword ih =>
      rcases leadingKeyword?_eq_some hKeyword with
        ⟨hMem, b, tail, hb, rfl, rfl⟩
      rcases all_isWordChar_keyword hMem with ⟨hNe, hWord⟩
      rcases List.mem_cons.mp hPart with rfl | hPart
      · exact ⟨hNe, Text.isTrimmed_of_all
          (Reader.all_not_isBlank_of_isWordChar hWord)⟩
      · have hTail := (hTrimmed.trimStart_tail (by simp)).2
        have hTrim : Text.trimStart (b :: tail) =
            Text.trimStart tail := by
          simp [Text.trimStart, hb]
        rw [hTrim] at hTail
        exact ih hTail hPart
  | case3 text hEmpty hKeyword =>
      rw [List.mem_singleton.mp hPart]
      exact ⟨by simpa using hEmpty, hTrimmed⟩

/- The texts of the statements of a record. -/
def textsOf
    (record : List Mark) : List Text :=
  isolate (Text.trim (Mark.chars record))

theorem map_text_ofRecord
    (marks record : List Mark) :
    (ofRecord marks record).map Statement.text =
      textsOf record := by
  rw [ofRecord, List.map_map]
  exact List.map_id _

theorem map_text_flatMap
    (marks : List Mark)
    (records : List (List Mark)) :
    (records.flatMap (ofRecord marks)).map Statement.text =
      records.flatMap textsOf := by
  simp only [List.map_flatMap, map_text_ofRecord]

theorem ink_textsOf
    (record : List Mark) :
    Text.ink (textsOf record).flatten =
      Mark.chars (record.filter Mark.isInk) := by
  rw [textsOf, ink_isolate, Text.ink_trim,
    Mark.chars_filter_isInk]

theorem ink_flatMap_textsOf
    (records : List (List Mark)) :
    Text.ink (records.flatMap textsOf).flatten =
      Mark.chars (records.flatten.filter Mark.isInk) := by
  induction records with
  | nil => rfl
  | cons record records ih =>
      rw [List.flatMap_cons, List.flatten_append, Text.ink_append,
        ink_textsOf, ih, List.flatten_cons, List.filter_append,
        Mark.chars, Mark.chars, ← List.map_append]
      rfl

/- A record that makes a statement has ink, and so it has a line. -/
theorem line_of_mem_ofRecord
    {marks record : List Mark}
    {s : Statement}
    (hs : s ∈ ofRecord marks record) :
    ∃ m, record.find? Mark.isInk = some m ∧
      s.line = m.lineIn marks := by
  cases hFind : record.find? Mark.isInk with
  | none =>
      have hBlank : (Mark.chars record).isAllBlank = true := by
        simpa [Text.isAllBlank, Mark.chars, Mark.isInk]
          using hFind
      have hText : s.text ∈ textsOf record := by
        rw [← map_text_ofRecord marks]
        exact List.mem_map_of_mem hs
      rw [textsOf, Text.trim_of_isAllBlank hBlank, isolate] at hText
      simp at hText
  | some m =>
      rcases List.mem_map.mp hs with ⟨text, -, rfl⟩
      exact ⟨m, rfl, by simp [hFind]⟩

/- The statements of the records keep the order of lines. -/
theorem pairwise_line_ofRecord
    {marks : List Mark}
    (hPos : marks.Pairwise fun m n => m.pos < n.pos)
    {records : List (List Mark)}
    (hSublist : records.flatten.Sublist marks) :
    (records.flatMap (ofRecord marks)).Pairwise
      fun s t => s.line ≤ t.line := by
  have hRecords :=
    (List.pairwise_flatten.mp (hPos.sublist hSublist)).2
  refine List.pairwise_flatMap.mpr ⟨fun record _ => ?_, ?_⟩
  · rw [ofRecord, List.pairwise_map]
    exact List.pairwise_of_forall fun _ _ => Nat.le_refl _
  · refine hRecords.imp fun {former latter} h s hs t ht => ?_
    rcases line_of_mem_ofRecord hs with ⟨m, hm, hsLine⟩
    rcases line_of_mem_ofRecord ht with ⟨n, hn, htLine⟩
    have hBefore := h m (List.mem_of_find?_eq_some hm) n
      (List.mem_of_find?_eq_some hn)
    rw [hsLine, htLine]
    exact Mark.lineIn_le marks (Nat.le_of_lt hBefore)

theorem AreRecords.texts_eq
    {script : Text}
    {records : List (List Mark)}
    (h : AreRecords script records) :
    texts script = records.flatMap textsOf := by
  rw [texts, h.statements, map_text_flatMap]

/-
  The statements of a script hold all of its ink except for the
  bare semicolons and the backslashes that join lines.  They are
  trimmed, none is empty, and they stand in the order of their
  lines.
-/
theorem texts_hold_ink
    (script : Text) :
    Text.ink (texts script).flatten =
        Mark.chars (Mark.inked false (Mark.scan script)) ∧
      (∀ text ∈ texts script, text ≠ [] ∧ text.IsTrimmed) ∧
        ((ofScript script).map Statement.line).Pairwise
          (· ≤ ·) := by
  rcases exists_areRecords script with ⟨records, h⟩
  refine ⟨?_, ?_, ?_⟩
  · rw [h.texts_eq, ink_flatMap_textsOf, h.recorded.inked_eq]
  · intro text hText
    rw [h.texts_eq] at hText
    rcases List.mem_flatMap.mp hText with ⟨record, -, hPart⟩
    exact isTrimmed_isolate (Text.isTrimmed_trim _) hPart
  · rw [h.statements, List.pairwise_map]
    exact pairwise_line_ofRecord (Mark.pairwise_pos_scan script)
      h.recorded.sublist

/- What is quoted or stands in a comment is no separator. -/
example :
    Mark.chars (Mark.inked false
      (Mark.scan (Text.ofString "a; ';' \\\nb # ; \\\n"))) =
      Text.ofString "a';'b#;\\" := by
  repeat rw [Text.ofString_ofList]
  decide +kernel

end Statement

end ShellToC
