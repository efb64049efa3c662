import ShellToC.Proofs.Ink

/-
  This file finds the place of each statement in its script.

  The statements hold the ink of the script in its order.  So
  the ink of a statement starts behind as much ink as the
  statements before it hold, and the marks found there are its
  own.

  Key definitions include:
    * `Statement.firstMark?`
    * `Statement.lastMark?`
    * `Statement.Source`

  Main declarations:
    * `Statement.AreRecords.nonempty_source`
    * `Statement.Source.firstMark?_eq`
    * `Statement.Source.lastMark?_eq`
-/

namespace ShellToC

namespace Statement

------------------------------------------------------------
-- First and Last Marks
------------------------------------------------------------

/- How much ink the first statements of a script hold. -/
def inkBefore
    (script : Text)
    (n : Nat) : Nat :=
  (Text.ink ((texts script).take n).flatten).length

theorem inkBefore_succ
    {script : Text}
    {n : Nat}
    {s : Statement}
    (hs : (ofScript script)[n]? = some s) :
    inkBefore script (n + 1) =
      inkBefore script n + (Text.ink s.text).length := by
  have hText : (texts script)[n]? = some s.text := by
    rw [texts, List.getElem?_map, hs]
    rfl
  rw [inkBefore, inkBefore, List.take_add_one, hText]
  simp

/- The mark of the script that starts a statement. -/
def firstMark?
    (script : Text)
    (n : Nat) : Option Mark :=
  (Mark.inked false (Mark.scan script))[inkBefore script n]?

/- The mark of the script that ends a statement. -/
def lastMark?
    (script : Text)
    (n : Nat) : Option Mark :=
  (Mark.inked false
    (Mark.scan script))[inkBefore script (n + 1) - 1]?

------------------------------------------------------------
-- Parts of a Record
------------------------------------------------------------

/- Only keywords and blanks stand before a part of a text. -/
theorem exists_isolate_split
    {text part : Text}
    {i : Nat}
    (h : (isolate text)[i]? = some part) :
    ∃ lead tail, text = lead ++ (part ++ tail) ∧
      Text.ink lead = Text.ink ((isolate text).take i).flatten ∧
        ∀ c ∈ lead, Text.isBlank c = true ∨
          Reader.isWordChar c = true := by
  fun_induction isolate text generalizing i with
  | case1 text hEmpty => simp at h
  | case2 text hEmpty keyword rest hKeyword ih =>
      rcases leadingKeyword?_eq_some hKeyword with
        ⟨hMem, b, tail, hb, rfl, rfl⟩
      have hWord := (all_isWordChar_keyword hMem).2
      cases i with
      | zero =>
          cases h
          exact ⟨[], b :: tail, rfl, rfl, by simp⟩
      | succ i =>
          rcases ih h with ⟨lead, behind, hRest, hInk, hLead⟩
          rcases Text.trimStart_split tail with
            ⟨blanks, hBlanks, hTail⟩
          refine ⟨keyword ++ b :: blanks ++ lead, behind, ?_, ?_,
            ?_⟩
          · rw [hTail, hRest]
            simp
          · have hBlank : Text.ink (b :: blanks) = [] :=
              Text.ink_of_isAllBlank (by
                simpa [Text.isAllBlank, hb] using hBlanks)
            rw [Text.ink_append, Text.ink_append, hBlank,
              List.append_nil, hInk, List.take_succ_cons,
              List.flatten_cons, Text.ink_append]
          · intro c hc
            rcases List.mem_append.mp hc with hc | hc
            · rcases List.mem_append.mp hc with hc | hc
              · exact Or.inr (List.all_eq_true.mp hWord c hc)
              · refine Or.inl ?_
                rcases List.mem_cons.mp hc with rfl | hc
                · exact hb
                · exact List.all_eq_true.mp hBlanks c hc
            · exact hLead c hc
  | case3 text hEmpty hKeyword =>
      cases i with
      | zero =>
          cases h
          exact ⟨[], [], by simp, rfl, by simp⟩
      | succ i => simp at h

/- The marks of a record before, of and behind one of its texts. -/
theorem exists_textsOf_split
    {record : List Mark}
    {part : Text}
    {i : Nat}
    (h : (textsOf record)[i]? = some part) :
    ∃ before own after, record = before ++ (own ++ after) ∧
      Mark.chars own = part ∧
        (before.filter Mark.isInk).length =
          (Text.ink ((textsOf record).take i).flatten).length ∧
        ∀ m ∈ before, m.isInk = true →
          Reader.isWordChar m.ch = true := by
  rcases exists_isolate_split h with
    ⟨lead, tail, hText, hInk, hLead⟩
  rcases Text.trim_split (Mark.chars record) with
    ⟨blanks, ends, hBlanks, hEnds, hRecord⟩
  rw [hText] at hRecord
  have hSplit : record.map Mark.ch =
      (blanks ++ lead) ++ (part ++ (tail ++ ends)) := by
    rw [← Mark.chars, hRecord]
    simp
  rcases List.map_eq_append_iff.mp hSplit with
    ⟨before, behind, rfl, hBefore, hBehind⟩
  rcases List.map_eq_append_iff.mp hBehind with
    ⟨own, after, rfl, hOwn, -⟩
  refine ⟨before, own, after, rfl, hOwn, ?_, ?_⟩
  · have hChars : Mark.chars (before.filter Mark.isInk) =
        Text.ink lead := by
      rw [Mark.chars_filter_isInk, Mark.chars, hBefore,
        Text.ink_append, Text.ink_of_isAllBlank hBlanks,
        List.nil_append]
    rw [textsOf, ← hInk, ← hChars, Mark.chars, List.length_map]
  · intro m hm hMark
    have hc : m.ch ∈ blanks ++ lead := by
      rw [← hBefore]
      exact List.mem_map_of_mem hm
    have hNot : Text.isBlank m.ch = false := by
      simpa [Mark.isInk] using hMark
    rcases List.mem_append.mp hc with hc | hc
    · simp [List.all_eq_true.mp hBlanks _ hc] at hNot
    · simpa [hNot] using hLead m.ch hc

------------------------------------------------------------
-- Sources
------------------------------------------------------------

/- A member of joined lists is a member of one of them. -/
theorem exists_getElem?_of_flatMap
    {α β : Type}
    {f : α → List β}
    {xs : List α}
    {n : Nat}
    {y : β}
    (h : (xs.flatMap f)[n]? = some y) :
    ∃ place x i, xs[place]? = some x ∧ (f x)[i]? = some y ∧
      n = ((xs.take place).flatMap f).length + i := by
  induction xs generalizing n with
  | nil => simp at h
  | cons x xs ih =>
      rw [List.flatMap_cons, List.getElem?_append] at h
      split at h
      · exact ⟨0, x, n, rfl, h, by simp⟩
      · rcases ih h with ⟨place, z, i, hPlace, hi, hn⟩
        refine ⟨place + 1, z, i, by simpa using hPlace, hi, ?_⟩
        simp only [List.take_succ_cons, List.flatMap_cons,
          List.length_append]
        omega

/-
  Where a statement comes from: the record and the marks of it
  before, of and behind the statement.  What stands before it in
  its record are keywords.
-/
structure Source
    (marks : List Mark)
    (records : List (List Mark))
    (n : Nat)
    (s : Statement) where
  place : Nat
  record : List Mark
  record_at : records[place]? = some record
  index : Nat
  count_eq : n =
    ((records.take place).flatMap textsOf).length + index
  text_at : (textsOf record)[index]? = some s.text
  before : List Mark
  own : List Mark
  after : List Mark
  record_eq : record = before ++ (own ++ after)
  chars_own : Mark.chars own = s.text
  ink_before : (before.filter Mark.isInk).length =
    (Text.ink ((textsOf record).take index).flatten).length
  isWordChar_before : ∀ m ∈ before, m.isInk = true →
    Reader.isWordChar m.ch = true
  line_eq : ∃ m, record.find? Mark.isInk = some m ∧
    s.line = m.lineIn marks

/- Every statement comes from somewhere. -/
theorem AreRecords.nonempty_source
    {script : Text}
    {records : List (List Mark)}
    (h : AreRecords script records)
    {n : Nat}
    {s : Statement}
    (hs : (ofScript script)[n]? = some s) :
    Nonempty (Source (Mark.scan script) records n s) := by
  rw [h.statements] at hs
  rcases exists_getElem?_of_flatMap hs with
    ⟨place, record, i, hPlace, hi, hn⟩
  have hText : (textsOf record)[i]? = some s.text := by
    rw [← map_text_ofRecord (Mark.scan script),
      List.getElem?_map, hi]
    rfl
  have hCount := congrArg List.length
    (map_text_flatMap (Mark.scan script) (records.take place))
  rw [List.length_map] at hCount
  rw [hCount] at hn
  rcases exists_textsOf_split hText with
    ⟨before, own, after, hRecord, hOwn, hInk, hWord⟩
  exact ⟨⟨place, record, hPlace, i, hn, hText, before, own, after,
    hRecord, hOwn, hInk, hWord,
    line_of_mem_ofRecord (List.mem_of_getElem? hi)⟩⟩

namespace Source

variable {script : Text}
variable {records : List (List Mark)}
variable {n : Nat}
variable {s : Statement}

/- The statement is not empty, and it has ink at both ends. -/
theorem isTrimmed_own
    (source : Source (Mark.scan script) records n s) :
    source.own ≠ [] ∧
      source.own.head?.all Mark.isInk = true ∧
        source.own.getLast?.all Mark.isInk = true := by
  rcases isTrimmed_isolate (Text.isTrimmed_trim _)
      (List.mem_of_getElem? source.text_at) with ⟨hNe, hTrimmed⟩
  have hHead := hTrimmed.head
  have hLast := hTrimmed.last
  rw [← source.chars_own, Mark.chars] at hNe hHead hLast
  rw [List.head?_map, Option.all_map] at hHead
  rw [List.getLast?_map, Option.all_map] at hLast
  exact ⟨by simpa using hNe, hHead, hLast⟩

/- The records before, of and behind the statement. -/
theorem records_eq
    (source : Source (Mark.scan script) records n s) :
    records = records.take source.place ++
      source.record :: records.drop (source.place + 1) := by
  rcases List.getElem?_eq_some_iff.mp source.record_at with
    ⟨hPlace, hRecord⟩
  rw [← hRecord, ← List.drop_eq_getElem_cons hPlace,
    List.take_append_drop]

/- A keyword has no characters but those of words. -/
theorem ch_ne_of_mem_before
    (source : Source (Mark.scan script) records n s)
    {m : Mark}
    (hm : m ∈ source.before)
    {c : Char}
    (hBlank : Text.isBlank c = false)
    (hWord : Reader.isWordChar c = false) :
    m.ch ≠ c := by
  rintro rfl
  have hInk : m.isInk = true := by simp [Mark.isInk, hBlank]
  simp [source.isWordChar_before m hm hInk] at hWord

theorem mem_records
    (source : Source (Mark.scan script) records n s) :
    source.record ∈ records :=
  List.mem_of_getElem? source.record_at

/- A comment is a statement of its own. -/
theorem before_of_isComment
    (h : AreRecords script records)
    (source : Source (Mark.scan script) records n s)
    {m : Mark}
    (hm : m ∈ source.record)
    (hComment : m.isComment = true) :
    source.before = [] ∧ s.text.head? = some '#' := by
  have hHash : source.record.head?.map Mark.ch = some '#' := by
    rcases h.recorded.isUniform _ source.mem_records with
      hOutside | hInside
    · simp [hOutside m hm] at hComment
    · exact hInside.2
  rw [source.record_eq] at hHash
  cases hBefore : source.before with
  | nil =>
      rcases List.exists_cons_of_ne_nil source.isTrimmed_own.1 with
        ⟨x, own, hOwn⟩
      rw [hBefore, hOwn] at hHash
      refine ⟨rfl, ?_⟩
      rw [← source.chars_own, hOwn]
      exact hHash
  | cons x before =>
      -- No keyword starts with a number sign.
      rw [hBefore] at hHash
      have hc : x.ch = '#' := by simpa using hHash
      exact absurd hc (source.ch_ne_of_mem_before
        (by simp [hBefore]) (by decide) (by decide))

/- Before it stand the earlier records and some keywords. -/
theorem take_texts
    (h : AreRecords script records)
    (source : Source (Mark.scan script) records n s) :
    (texts script).take n =
      (records.take source.place).flatMap textsOf ++
        (textsOf source.record).take source.index := by
  have hIndex := (List.getElem?_eq_some_iff.mp source.text_at).1
  have hTexts : texts script =
      (records.take source.place).flatMap textsOf ++
        (textsOf source.record ++
          (records.drop (source.place + 1)).flatMap textsOf) := by
    rw [h.texts_eq, ← List.flatMap_cons, ← List.flatMap_append,
      ← source.records_eq]
  have hCount := source.count_eq
  have hWithin : n - ((records.take source.place).flatMap
      textsOf).length = source.index := by omega
  rw [hTexts, List.take_append, hWithin,
    List.take_of_length_le (by omega),
    List.take_append_of_le_length (Nat.le_of_lt hIndex)]

/- The ink of the statement stands behind the ink before it. -/
theorem exists_inked
    (h : AreRecords script records)
    (source : Source (Mark.scan script) records n s) :
    ∃ lead tail, Mark.inked false (Mark.scan script) =
        lead ++ (source.own.filter Mark.isInk ++ tail) ∧
      lead.length = inkBefore script n := by
  refine ⟨(records.take source.place).flatten.filter Mark.isInk ++
      source.before.filter Mark.isInk,
    source.after.filter Mark.isInk ++
      (records.drop (source.place + 1)).flatten.filter Mark.isInk,
    ?_, ?_⟩
  · have hFlat := congrArg List.flatten source.records_eq
    rw [h.recorded.inked_eq, hFlat]
    simp [source.record_eq]
  · have hInk := congrArg List.length
      (ink_flatMap_textsOf (records.take source.place))
    rw [Mark.chars, List.length_map] at hInk
    rw [inkBefore, source.take_texts h, List.flatten_append,
      Text.ink_append, List.length_append, List.length_append,
      hInk, source.ink_before]

/- The statement starts and ends where its own marks do. -/
theorem firstMark?_eq
    (h : AreRecords script records)
    (source : Source (Mark.scan script) records n s) :
    firstMark? script n = source.own.head? := by
  rcases source.exists_inked h with ⟨lead, tail, hInked, hLead⟩
  rcases source.isTrimmed_own with ⟨hNe, hHead, -⟩
  rcases List.exists_cons_of_ne_nil hNe with ⟨m, own, hOwn⟩
  rw [hOwn] at hHead hInked ⊢
  have hm : m.isInk = true := by simpa using hHead
  rw [firstMark?, hInked, ← hLead, List.filter_cons_of_pos hm]
  simp

theorem lastMark?_eq
    (h : AreRecords script records)
    (hs : (ofScript script)[n]? = some s)
    (source : Source (Mark.scan script) records n s) :
    lastMark? script n = source.own.getLast? := by
  rcases source.exists_inked h with ⟨lead, tail, hInked, hLead⟩
  rcases source.isTrimmed_own with ⟨hNe, -, hLast⟩
  rcases List.eq_nil_or_concat source.own with hNil | ⟨own, m, hOwn⟩
  · exact absurd hNil hNe
  have hm : m.isInk = true := by simpa [hOwn] using hLast
  have hFilter : source.own.filter Mark.isInk =
      own.filter Mark.isInk ++ [m] := by
    simp [hOwn, hm]
  have hOwnInk := congrArg List.length
    (Mark.chars_filter_isInk source.own)
  rw [source.chars_own, Mark.chars, List.length_map] at hOwnInk
  rw [lastMark?, hInked, inkBefore_succ hs, ← hOwnInk, ← hLead,
    hFilter, hOwn]
  simp

end Source

end Statement

end ShellToC
