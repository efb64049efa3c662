import ShellToC.Proofs.InkShares

/-
  This file compares the line of a statement with the line on
  which its first character stands.

  The statements of a record all have the line of the first one.
  A record goes on over a line feed where two lines are joined,
  and so a statement behind a keyword may start on a later line
  than it says.  All others say where they start.

  Key definitions include:
    * `Mark.gap`
    * `Statement.isBehindJoint`

  Main declarations:
    * `Mark.lineIn_lt_iff`
    * `Statement.line_eq_lineIn_iff`
    * `Statement.line_of_joined_keyword`
-/

namespace ShellToC

------------------------------------------------------------
-- Lines between Places
------------------------------------------------------------

namespace Mark

/- The marks from one place up to another. -/
def gap
    (marks : List Mark)
    (x y : Mark) : List Mark :=
  marks.filter fun z => x.pos ≤ z.pos && z.pos < y.pos

theorem mem_gap
    {marks : List Mark}
    {x y z : Mark} :
    z ∈ gap marks x y ↔
      z ∈ marks ∧ x.pos ≤ z.pos ∧ z.pos < y.pos := by
  simp [gap]

/- The lines of two places differ by the line feeds between. -/
theorem lineIn_eq_add
    (marks : List Mark)
    {x y : Mark}
    (h : x.pos ≤ y.pos) :
    y.lineIn marks =
      x.lineIn marks + (gap marks x y).countP (·.ch == '\n') := by
  have hCount : marks.countP
      (fun n => n.ch == '\n' && n.pos < y.pos) =
        marks.countP (fun n => n.ch == '\n' && n.pos < x.pos) +
          (gap marks x y).countP (·.ch == '\n') := by
    rw [gap, List.countP_filter]
    induction marks with
    | nil => rfl
    | cons m marks ih =>
        simp only [List.countP_cons, ih, Bool.and_eq_true,
          decide_eq_true_eq, beq_iff_eq]
        by_cases hm : m.ch = '\n'
        · simp only [hm, true_and]
          split <;> split <;> split <;> omega
        · simp [hm]
  rw [lineIn, lineIn, hCount, Nat.add_assoc]

/- They differ if there is a line feed between. -/
theorem lineIn_lt_iff
    (marks : List Mark)
    {x y : Mark}
    (h : x.pos ≤ y.pos) :
    x.lineIn marks < y.lineIn marks ↔
      ∃ z ∈ gap marks x y, z.ch = '\n' := by
  have hSome : (∃ z ∈ gap marks x y, z.ch = '\n') ↔
      0 < (gap marks x y).countP (·.ch == '\n') := by
    simp
  rw [hSome, lineIn_eq_add marks h]
  omega

end Mark

namespace Statement

/-
  Whether lines are joined between an earlier statement and this
  one, although nothing ends there.  Both are then parts of one
  record, and what stands before this one there are keywords.
-/
def isBehindJoint
    (script : Text)
    (n : Nat) : Bool :=
  (List.range n).any fun k =>
    (firstMark? script k).any fun x =>
      (firstMark? script n).any fun y =>
        let between := Mark.gap (Mark.scan script) x y
        !y.isComment && between.all (!·.mayEnd) &&
          between.any (·.ch == '\n')

theorem isBehindJoint_iff
    {script : Text}
    {n : Nat} :
    isBehindJoint script n = true ↔
      ∃ k x y, k < n ∧ firstMark? script k = some x ∧
        firstMark? script n = some y ∧ y.isComment = false ∧
        (∀ z ∈ Mark.gap (Mark.scan script) x y,
          z.mayEnd = false) ∧
        ∃ z ∈ Mark.gap (Mark.scan script) x y, z.ch = '\n' := by
  simp only [isBehindJoint, List.any_eq_true, List.mem_range,
    Option.any_eq_true, Bool.and_eq_true, Bool.not_eq_true',
    List.all_eq_true, beq_iff_eq, and_assoc]
  constructor
  · rintro ⟨k, hk, x, hx, y, hy, hRest⟩
    exact ⟨k, x, y, hk, hx, hy, hRest⟩
  · rintro ⟨k, x, y, hk, hx, hy, hRest⟩
    exact ⟨k, hk, x, hx, y, hy, hRest⟩

------------------------------------------------------------
-- First Ink of a Record
------------------------------------------------------------

/- The marks of a record stand in their order. -/
theorem AreRecords.pairwise_pos
    {script : Text}
    {records : List (List Mark)}
    (h : AreRecords script records)
    {record : List Mark}
    (hRecord : record ∈ records) :
    record.Pairwise fun m n => m.pos < n.pos :=
  (List.pairwise_flatten.mp ((Mark.pairwise_pos_scan script).sublist
    h.recorded.sublist)).1 record hRecord

/- No ink of a record stands before its first ink. -/
theorem AreRecords.pos_le_of_find?_isInk
    {script : Text}
    {records : List (List Mark)}
    (h : AreRecords script records)
    {record : List Mark}
    (hRecord : record ∈ records)
    {f x : Mark}
    (hf : record.find? Mark.isInk = some f)
    (hx : x ∈ record)
    (hInk : x.isInk = true) :
    f.pos ≤ x.pos := by
  have hPos := h.pairwise_pos hRecord
  rcases List.find?_eq_some_iff_append.mp hf with
    ⟨-, blanks, behind, rfl, hBlanks⟩
  rcases List.mem_append.mp hx with hx | hx
  · exact absurd hInk (by simpa using hBlanks x hx)
  · have hBehind :=
      (List.pairwise_cons.mp (List.pairwise_append.mp hPos).2.1).1
    rcases List.mem_cons.mp hx with rfl | hx
    · exact Nat.le_refl _
    · exact Nat.le_of_lt (hBehind x hx)

namespace Source

variable {script : Text}
variable {records : List (List Mark)}
variable {k n : Nat}
variable {s t : Statement}

/- The mark that starts a statement is ink of its record. -/
theorem mem_of_firstMark?
    (h : AreRecords script records)
    (source : Source (Mark.scan script) records n s)
    {m : Mark}
    (hm : firstMark? script n = some m) :
    m ∈ source.record ∧ m.isInk = true := by
  rw [source.firstMark?_eq h] at hm
  have hHead := source.isTrimmed_own.2.1
  rw [hm] at hHead
  refine ⟨?_, by simpa using hHead⟩
  rw [source.record_eq]
  simp [List.mem_of_head? hm]

/- A statement with no ink before it starts its record. -/
theorem find?_isInk
    (h : AreRecords script records)
    (source : Source (Mark.scan script) records n s)
    (hBefore : source.before.find? Mark.isInk = none) :
    source.record.find? Mark.isInk = firstMark? script n := by
  rcases source.isTrimmed_own with ⟨hNe, hHead, -⟩
  rcases List.exists_cons_of_ne_nil hNe with ⟨m, own, hOwn⟩
  have hm : m.isInk = true := by simpa [hOwn] using hHead
  rw [source.firstMark?_eq h, source.record_eq, List.find?_append,
    hBefore, hOwn]
  simp [hm]

/- Behind no other statement of its record there is no ink. -/
theorem find?_before_of_index
    (source : Source (Mark.scan script) records n s)
    (hIndex : source.index = 0) :
    source.before.find? Mark.isInk = none := by
  have hInk := source.ink_before
  rw [hIndex] at hInk
  simpa using hInk

/- The first statement of the same record. -/
theorem exists_first
    (source : Source (Mark.scan script) records n s) :
    ∃ t, ∃ first : Source (Mark.scan script) records
        (n - source.index) t,
      first.record = source.record ∧ first.index = 0 := by
  have hIndex := (List.getElem?_eq_some_iff.mp source.text_at).1
  have hCount := source.count_eq
  have hText : (textsOf source.record)[0]? =
      some ((textsOf source.record)[0]) :=
    List.getElem?_eq_getElem (by omega)
  rcases exists_textsOf_split hText with
    ⟨before, own, after, hRecord, hOwn, hInk, hWord⟩
  exact ⟨⟨_, s.line⟩, ⟨source.place, source.record,
    source.record_at, 0, by omega, hText, before, own, after,
    hRecord, hOwn, hInk, hWord, source.line_eq⟩, rfl, rfl⟩

/- Statements come from the records in order. -/
theorem place_le
    (former : Source (Mark.scan script) records k s)
    (latter : Source (Mark.scan script) records n t)
    (h : k < n) :
    former.place ≤ latter.place := by
  refine Nat.le_of_not_lt fun hPlace => ?_
  have hIndex := (List.getElem?_eq_some_iff.mp latter.text_at).1
  have hFormer := former.count_eq
  have hLatter := latter.count_eq
  have hTake : (records.take (latter.place + 1)).flatMap textsOf =
      (records.take latter.place).flatMap textsOf ++
        textsOf latter.record := by
    rw [List.take_add_one, latter.record_at]
    simp
  rcases List.take_prefix_take_left (l := records) hPlace with
    ⟨more, hMore⟩
  rw [← hMore, List.flatMap_append, hTake, List.length_append,
    List.length_append] at hFormer
  omega

------------------------------------------------------------
-- Joints
------------------------------------------------------------

/- Nothing ends before a statement of a record. -/
theorem mayEnd_of_pos_lt
    (h : AreRecords script records)
    (source : Source (Mark.scan script) records n s)
    {m z : Mark}
    (hm : firstMark? script n = some m)
    (hz : z ∈ source.record)
    (hTo : z.pos < m.pos) :
    z.mayEnd = false := by
  have hSeparates := h.recorded.separates_eq_false z
    (List.mem_flatten.mpr ⟨_, source.mem_records, hz⟩)
  have hPos := h.pairwise_pos source.mem_records
  rw [source.firstMark?_eq h] at hm
  rcases List.head?_eq_some_iff.mp hm with ⟨own, hOwn⟩
  rw [source.record_eq, hOwn] at hz hPos
  have hBehind :=
    (List.pairwise_cons.mp (List.pairwise_append.mp hPos).2.1).1
  rcases List.mem_append.mp hz with hz | hz
  · rw [Mark.mayEnd, hSeparates, Bool.false_or]
    refine Bool.eq_false_iff.mpr fun hEnds => ?_
    -- An ampersand is no part of a keyword.
    exact source.ch_ne_of_mem_before hz (by decide) (by decide)
      (Mark.isBareChar_iff.mp hEnds).2
  · rcases List.mem_cons.mp hz with rfl | hz
    · omega
    · have := hBehind z hz
      omega

/- A statement that is not where it says stands behind a joint. -/
theorem isBehindJoint_of_line_ne
    (h : AreRecords script records)
    (source : Source (Mark.scan script) records n s)
    {m : Mark}
    (hm : firstMark? script n = some m)
    (hLine : s.line ≠ m.lineIn (Mark.scan script)) :
    isBehindJoint script n = true := by
  rcases source.line_eq with ⟨f, hf, hsLine⟩
  rcases source.mem_of_firstMark? h hm with ⟨hmRecord, hmInk⟩
  have hFrom := h.pos_le_of_find?_isInk source.mem_records hf
    hmRecord hmInk
  -- The first ink of the record belongs to a keyword before it.
  have hBefore : source.before.find? Mark.isInk = some f := by
    cases hFind : source.before.find? Mark.isInk with
    | none =>
        rw [source.find?_isInk h hFind, hm] at hf
        cases hf
        exact absurd hsLine hLine
    | some x =>
        rw [source.record_eq, List.find?_append, hFind] at hf
        exact hf
  have hIndex : source.index ≠ 0 := by
    intro hIndex
    simp [source.find?_before_of_index hIndex] at hBefore
  have hCount := source.count_eq
  rcases source.exists_first with ⟨t, first, hSame, hFirst⟩
  have hFirstMark := first.find?_isInk h
    (first.find?_before_of_index hFirst)
  rw [hSame, hf] at hFirstMark
  refine isBehindJoint_iff.mpr ⟨n - source.index, f, m, by omega,
    hFirstMark.symm, hm, ?_, ?_, ?_⟩
  · refine Bool.eq_false_iff.mpr fun hComment => ?_
    simp [(source.before_of_isComment h hmRecord hComment).1]
      at hBefore
  · intro z hz
    rcases Mark.mem_gap.mp hz with ⟨hzMarks, hzFrom, hzTo⟩
    rcases h.recorded.between (Mark.pairwise_pos_scan script)
        source.mem_records (List.mem_of_find?_eq_some hf) hmRecord
        hzMarks hzFrom (Nat.le_of_lt hzTo) with hzRecord | hQuoted
    · exact source.mayEnd_of_pos_lt h hm hzRecord hzTo
    · simp [Mark.mayEnd, Mark.separates,
        Mark.isBareChar_of_quoted hQuoted]
  · have hLe := Mark.lineIn_le (Mark.scan script) hFrom
    refine (Mark.lineIn_lt_iff (Mark.scan script) hFrom).mp ?_
    omega

/-
  Two statements with nothing that ends between them are of one
  record.
-/
theorem record_eq_of_gap
    (h : AreRecords script records)
    (former : Source (Mark.scan script) records k t)
    (latter : Source (Mark.scan script) records n s)
    (hk : k < n)
    {x y : Mark}
    (hx : firstMark? script k = some x)
    (hy : firstMark? script n = some y)
    (hComment : y.isComment = false)
    (hEnds : ∀ z ∈ Mark.gap (Mark.scan script) x y,
      z.mayEnd = false) :
    former.record = latter.record := by
  rcases List.getElem?_eq_some_iff.mp former.record_at with
    ⟨hi, hFormer⟩
  rcases List.getElem?_eq_some_iff.mp latter.record_at with
    ⟨hj, hLatter⟩
  have hPlace : former.place = latter.place := by
    refine Nat.le_antisymm (former.place_le latter hk)
      (Nat.le_of_not_lt fun hLess => ?_)
    have hParts := List.pairwise_iff_getElem.mp
      (h.recorded.parted (Mark.pairwise_pos_scan script))
      _ _ hi hj hLess
    rw [hFormer, hLatter] at hParts
    rcases hParts x (former.mem_of_firstMark? h hx).1
        y (latter.mem_of_firstMark? h hy).1 with
      hInside | ⟨z, hMem, hFrom, hTo, hMay⟩
    · simp [hComment] at hInside
    · simp [hEnds z (Mark.mem_gap.mpr ⟨hMem, hFrom, hTo⟩)] at hMay
  rw [← hFormer, ← hLatter]
  simp only [hPlace]

/- A statement behind a joint says the line of an earlier one. -/
theorem line_lt_of_isBehindJoint
    (h : AreRecords script records)
    (hs : (ofScript script)[n]? = some s)
    (source : Source (Mark.scan script) records n s)
    {m : Mark}
    (hm : firstMark? script n = some m)
    (hJoint : isBehindJoint script n = true) :
    s.line < m.lineIn (Mark.scan script) := by
  rcases isBehindJoint_iff.mp hJoint with
    ⟨k, x, y, hk, hx, hy, hComment, hEnds, hFeed⟩
  cases hm.symm.trans hy
  rcases source.line_eq with ⟨f, hf, hsLine⟩
  have hLength := (List.getElem?_eq_some_iff.mp hs).1
  rcases h.nonempty_source (List.getElem?_eq_getElem
    (Nat.lt_trans hk hLength)) with ⟨former⟩
  have hSame := former.record_eq_of_gap h source hk hx hm hComment
    hEnds
  rcases former.mem_of_firstMark? h hx with ⟨hxRecord, hxInk⟩
  rw [hSame] at hxRecord
  have hFrom := h.pos_le_of_find?_isInk source.mem_records hf
    hxRecord hxInk
  have hTo : x.pos ≤ m.pos := by
    rcases hFeed with ⟨z, hz, -⟩
    rcases Mark.mem_gap.mp hz with ⟨-, hzFrom, hzTo⟩
    omega
  rw [hsLine]
  exact Nat.lt_of_le_of_lt (Mark.lineIn_le _ hFrom)
    ((Mark.lineIn_lt_iff _ hTo).mpr hFeed)

end Source

/-
  A statement never starts before the line it says.  It starts
  right there, unless lines are joined between an earlier
  statement and this one with nothing that ends in between.
-/
theorem line_eq_lineIn_iff
    {script : Text}
    {n : Nat}
    {s : Statement}
    (hs : (ofScript script)[n]? = some s) :
    ∃ m, firstMark? script n = some m ∧
      s.text.head? = some m.ch ∧
        s.line ≤ m.lineIn (Mark.scan script) ∧
          (s.line = m.lineIn (Mark.scan script) ↔
            isBehindJoint script n = false) := by
  rcases exists_areRecords script with ⟨records, h⟩
  rcases h.nonempty_source hs with ⟨source⟩
  rcases List.exists_cons_of_ne_nil source.isTrimmed_own.1 with
    ⟨m, own, hOwn⟩
  have hm : firstMark? script n = some m := by
    rw [source.firstMark?_eq h, hOwn]
    rfl
  have hText : s.text.head? = some m.ch := by
    rw [← source.chars_own, hOwn]
    rfl
  refine ⟨m, hm, hText, ?_, ?_, ?_⟩
  · rcases source.line_eq with ⟨f, hf, hLine⟩
    rcases source.mem_of_firstMark? h hm with ⟨hRecord, hInk⟩
    rw [hLine]
    exact Mark.lineIn_le _ (h.pos_le_of_find?_isInk
      source.mem_records hf hRecord hInk)
  · intro hLine
    refine Bool.eq_false_iff.mpr fun hJoint => ?_
    have hLess := source.line_lt_of_isBehindJoint h hs hm hJoint
    omega
  · intro hJoint
    refine Decidable.byContradiction fun hLine => ?_
    simp [source.isBehindJoint_of_line_ne h hm hLine] at hJoint

/- Lines are joined here, but behind a semicolon. -/
theorem line_eq_lineIn_iff_of_semicolon :
    let script : Text := "do a; \\\nb"
    let s : Statement := ⟨"b", 2⟩
    (ofScript script)[2]? = some s ∧
      isBehindJoint script 2 = false ∧
      ∃ m, firstMark? script 2 = some m ∧
        s.text.head? = some m.ch ∧
          s.line ≤ m.lineIn (Mark.scan script) ∧
            (s.line = m.lineIn (Mark.scan script) ↔
              isBehindJoint script 2 = false) := by
  intro script s
  have hScript : (ofScript script)[2]? = some s ∧
      isBehindJoint script 2 = false := by
    unfold script s
    repeat rw [Text.ofString_ofList]
    decide +kernel
  exact ⟨hScript.1, hScript.2, line_eq_lineIn_iff hScript.1⟩

/- The second statement stands on the second line. -/
theorem line_of_joined_keyword :
    let script : Text := "then \\\necho hi"
    (ofScript script)[1]? = some ⟨"echo hi", 1⟩ ∧
      (firstMark? script 1).map
        (Mark.lineIn (Mark.scan script)) = some 2 ∧
      isBehindJoint script 1 = true := by
  intro script
  unfold script
  repeat rw [Text.ofString_ofList]
  decide +kernel

end Statement

end ShellToC
