import ShellToC.Proofs.EscapePairs
import ShellToC.Proofs.TextParts

/-
  This file follows the marks of a script into its records.

  A record is what stands between two cuts.  `Mark.Recorded`
  says what each mark can do to the records: it is kept, it
  vanishes where two lines are joined, or it cuts.  All that is
  known about where a statement comes from is an induction over
  these steps.

  Key definitions include:
    * `Mark.Recorded`
    * `Mark.lineIn`
    * `Statement.ofRecord`

  Main declarations:
    * `Mark.Recorded.sublist`
    * `Mark.Recorded.isUniform`
    * `Mark.Recorded.between`
    * `Mark.Recorded.parted`
    * `Statement.exists_areRecords`
-/

namespace ShellToC

namespace Mark

------------------------------------------------------------
-- Records
------------------------------------------------------------

/- Whether a mark is anything but a blank. -/
def isInk
    (m : Mark) : Bool :=
  !Text.isBlank m.ch

/- Whether a mark separates statements and belongs to none. -/
def separates
    (m : Mark) : Bool :=
  m.isBareChar '\n' || m.isBareChar ';'

/- Whether a mark can be what ends a statement. -/
def mayEnd
    (m : Mark) : Bool :=
  m.separates || m.isBareChar '&'

/-
  Whether a mark vanishes where two lines are joined: it is the
  backslash before the line feed, or the line feed itself.
-/
def isJoint
    (paired : Bool)
    (m : Mark)
    (next : Option Mark) : Bool :=
  m.opensPair paired && next.any (·.ch == '\n') ||
    paired && m.ch == '\n'

/-
  The marks of a text and the records they are cut into, of
  which the first one goes on with what stands before the text.
-/
inductive Recorded :
    (paired inComment : Bool) → List Mark →
      List (List Mark) → Prop where
  | nil
      {paired inComment : Bool} :
      Recorded paired inComment [] [[]]
  /- A mark goes on with its record. -/
  | kept
      {paired inComment : Bool}
      {m : Mark}
      {rest record : List Mark}
      {records : List (List Mark)}
      (hComment : m.isComment = inComment)
      (hSeparates : m.separates = false)
      (hJoint : m.isJoint paired rest.head? = false)
      (h : Recorded (m.opensPair paired) inComment rest
        (record :: records)) :
      Recorded paired inComment (m :: rest)
        ((m :: record) :: records)
  /- A mark vanishes where two lines are joined. -/
  | joined
      {paired : Bool}
      {m : Mark}
      {rest : List Mark}
      {records : List (List Mark)}
      (hRole : m.role = .quoted)
      (hJoint : m.isJoint paired rest.head? = true)
      (h : Recorded (m.opensPair paired) false rest records) :
      Recorded paired false (m :: rest) records
  /- A separator ends a record. -/
  | separated
      {paired : Bool}
      {m : Mark}
      {rest : List Mark}
      {records : List (List Mark)}
      (hSeparates : m.separates = true)
      (h : Recorded false false rest records) :
      Recorded paired false (m :: rest) ([] :: records)
  /- An ampersand ends a record and stays with it. -/
  | ended
      {paired : Bool}
      {m : Mark}
      {rest : List Mark}
      {records : List (List Mark)}
      (hm : m.isBareChar '&' = true)
      (h : Recorded false false rest records) :
      Recorded paired false (m :: rest) ([m] :: records)
  /- A comment starts at a number sign and ends at a line feed. -/
  | turned
      {paired inComment : Bool}
      {m : Mark}
      {rest : List Mark}
      {records : List (List Mark)}
      (hTurn : m.isComment = !inComment)
      (hHash : inComment = false → m.ch = '#')
      (hFeed : inComment = true → m.isBareChar '\n' = true)
      (h : Recorded paired (!inComment) (m :: rest) records) :
      Recorded paired inComment (m :: rest) ([] :: records)

namespace Recorded

variable {paired inComment : Bool}
variable {marks : List Mark}
variable {records : List (List Mark)}

/- There is always a record to go on with. -/
theorem ne_nil
    (h : Recorded paired inComment marks records) :
    records ≠ [] := by
  induction h with
  | joined _ _ _ ih => exact ih
  | _ => simp

/- The records hold marks of the text in their order. -/
theorem sublist
    (h : Recorded paired inComment marks records) :
    records.flatten.Sublist marks := by
  induction h with
  | nil => simp
  | kept _ _ _ _ ih => exact ih.cons_cons _
  | joined _ _ _ ih => exact ih.cons _
  | separated _ _ ih => exact ih.cons _
  | ended _ _ ih => exact ih.cons_cons _
  | turned _ _ _ _ ih => exact ih

/- No separator belongs to a record. -/
theorem separates_eq_false
    (h : Recorded paired inComment marks records) :
    ∀ m ∈ records.flatten, m.separates = false := by
  induction h with
  | nil => simp
  | kept _ hSeparates _ _ ih =>
      rw [List.flatten_cons, List.cons_append, ← List.flatten_cons]
      exact List.forall_mem_cons.mpr ⟨hSeparates, ih⟩
  | joined _ _ _ ih => exact ih
  | separated _ _ ih => exact ih
  | ended hm _ ih =>
      refine List.forall_mem_cons.mpr ⟨?_, ih⟩
      simp_all [separates, isBareChar]
  | turned _ _ _ _ ih => exact ih

end Recorded

/-
  Whether a record is a comment from its number sign on, or has
  nothing to do with comments.
-/
def IsUniform
    (record : List Mark) : Prop :=
  (∀ m ∈ record, m.isComment = false) ∨
    (∀ m ∈ record, m.isComment = true) ∧
      record.head?.map Mark.ch = some '#'

namespace Recorded

variable {paired inComment : Bool}
variable {marks : List Mark}
variable {records : List (List Mark)}

/- The first record goes on, and the others start anew. -/
theorem isUniform_tail
    (h : Recorded paired inComment marks records) :
    (∀ m ∈ records.headD [], m.isComment = inComment) ∧
      ∀ record ∈ records.tail, IsUniform record := by
  have hAll {records : List (List Mark)}
      (h : (∀ m ∈ records.headD [], m.isComment = false) ∧
        ∀ record ∈ records.tail, IsUniform record) :
      ∀ record ∈ records, IsUniform record := by
    cases records with
    | nil => simp
    | cons record records =>
        exact List.forall_mem_cons.mpr ⟨Or.inl h.1, h.2⟩
  induction h with
  | nil => simp
  | kept hComment _ _ _ ih =>
      exact ⟨List.forall_mem_cons.mpr ⟨hComment, ih.1⟩, ih.2⟩
  | joined _ _ _ ih => exact ih
  | separated _ _ ih => exact ⟨by simp, hAll ih⟩
  | ended hm _ ih =>
      refine ⟨List.forall_mem_singleton.mpr ?_, hAll ih⟩
      simp_all [isBareChar, isBare, isComment]
  | @turned _ inComment m _ records hTurn hHash _ h ih =>
      refine ⟨by simp, ?_⟩
      cases inComment with
      | true => exact hAll ih
      | false =>
          -- The record starts with the number sign.
          cases h with
          | kept _ _ _ _ =>
              exact List.forall_mem_cons.mpr
                ⟨Or.inr ⟨ih.1, by simp [hHash rfl]⟩, ih.2⟩
          | turned hBack _ _ _ => simp [hTurn] at hBack

/- Each record is a comment as a whole or not at all. -/
theorem isUniform
    (h : Recorded paired false marks records) :
    ∀ record ∈ records, IsUniform record := by
  intro record hRecord
  have hUniform := h.isUniform_tail
  cases records with
  | nil => simp at hRecord
  | cons first records =>
      rcases List.mem_cons.mp hRecord with rfl | hRecord
      · exact Or.inl hUniform.1
      · exact hUniform.2 record hRecord

------------------------------------------------------------
-- Places between Records
------------------------------------------------------------

theorem mem_of_mem_record
    (h : Recorded paired inComment marks records)
    {record : List Mark}
    (hRecord : record ∈ records)
    {m : Mark}
    (hm : m ∈ record) :
    m ∈ marks :=
  h.sublist.subset (List.mem_flatten.mpr ⟨record, hRecord, hm⟩)

/-
  What stands before a mark of the first record belongs to it
  or is joined.
-/
theorem before_head
    (h : Recorded paired inComment marks records)
    (hPos : marks.Pairwise fun m n => m.pos < n.pos)
    {y z : Mark}
    (hy : y ∈ records.headD [])
    (hz : z ∈ marks)
    (hTo : z.pos ≤ y.pos) :
    z ∈ records.headD [] ∨ z.role = .quoted := by
  induction h with
  | nil => simp at hz
  | @kept _ _ m rest record records _ _ _ h ih =>
      rcases List.pairwise_cons.mp hPos with ⟨hFirst, hRest⟩
      rcases List.mem_cons.mp hz with rfl | hBehind
      · exact Or.inl (by simp)
      · have hNe : y ≠ m := by
          rintro rfl
          have := hFirst z hBehind
          omega
        have hInside : y ∈ record := by simpa [hNe] using hy
        exact (ih hRest hInside hBehind).imp_left
          (List.mem_cons_of_mem m)
  | joined hRole _ _ ih =>
      rcases List.mem_cons.mp hz with rfl | hBehind
      · exact Or.inr hRole
      · exact ih (List.pairwise_cons.mp hPos).2 hy hBehind
  | ended hm _ _ =>
      rcases List.mem_singleton.mp hy
      rcases List.mem_cons.mp hz with rfl | hBehind
      · exact Or.inl (by simp)
      · have := (List.pairwise_cons.mp hPos).1 z hBehind
        omega
  | _ => simp at hy

/-
  What stands between two marks of a record belongs to it or
  is joined.
-/
theorem between
    (h : Recorded paired inComment marks records)
    (hPos : marks.Pairwise fun m n => m.pos < n.pos)
    {record : List Mark}
    (hRecord : record ∈ records)
    {x y z : Mark}
    (hx : x ∈ record)
    (hy : y ∈ record)
    (hz : z ∈ marks)
    (hFrom : x.pos ≤ z.pos)
    (hTo : z.pos ≤ y.pos) :
    z ∈ record ∨ z.role = .quoted := by
  -- Behind a mark of the rest there is only the rest.
  have hBehind {m : Mark} {rest : List Mark}
      {paired inComment : Bool} {records : List (List Mark)}
      (h : Recorded paired inComment rest records)
      (hRecord : record ∈ records) (hz : z ∈ m :: rest)
      (hPos : (m :: rest).Pairwise fun m n => m.pos < n.pos) :
      z ∈ rest := by
    have := (List.pairwise_cons.mp hPos).1 x
      (h.mem_of_mem_record hRecord hx)
    rcases List.mem_cons.mp hz with rfl | hRest
    · omega
    · exact hRest
  induction h with
  | nil => simp at hz
  | @kept _ _ m rest first records hComment hSeparates hJoint h
      ih =>
      rcases List.mem_cons.mp hRecord with rfl | hLater
      · exact (Recorded.kept hComment hSeparates hJoint
          h).before_head hPos hy hz hTo
      · have hLater := List.mem_cons_of_mem first hLater
        exact ih (List.pairwise_cons.mp hPos).2 hLater
          (hBehind h hLater hz hPos)
  | joined _ _ h ih =>
      exact ih (List.pairwise_cons.mp hPos).2 hRecord
        (hBehind h hRecord hz hPos)
  | separated _ h ih =>
      rcases List.mem_cons.mp hRecord with rfl | hLater
      · simp at hx
      · exact ih (List.pairwise_cons.mp hPos).2 hLater
          (hBehind h hLater hz hPos)
  | @ended paired _ _ _ hm h ih =>
      rcases List.mem_cons.mp hRecord with rfl | hLater
      · have hEnded := @Recorded.ended paired _ _ _ hm h
        exact hEnded.before_head hPos hy hz hTo
      · exact ih (List.pairwise_cons.mp hPos).2 hLater
          (hBehind h hLater hz hPos)
  | turned _ _ _ _ ih =>
      rcases List.mem_cons.mp hRecord with rfl | hLater
      · simp at hx
      · exact ih hPos hLater hz

/-
  A record behind the first one is a comment, or something ends
  before it.
-/
theorem behind_head
    (h : Recorded paired inComment marks records)
    (hPos : marks.Pairwise fun m n => m.pos < n.pos)
    {y : Mark}
    (hy : y ∈ records.tail.flatten) :
    y.isComment = true ∨
      ∃ z ∈ marks, z.pos < y.pos ∧ z.mayEnd = true := by
  -- What ends a record ends before all that follows it.
  have hBehind {m : Mark} {rest : List Mark}
      {paired inComment : Bool} {records : List (List Mark)}
      (hm : m.mayEnd = true)
      (h : Recorded paired inComment rest records)
      (hy : y ∈ records.flatten)
      (hPos : (m :: rest).Pairwise fun m n => m.pos < n.pos) :
      ∃ z ∈ m :: rest, z.pos < y.pos ∧ z.mayEnd = true :=
    ⟨m, by simp, (List.pairwise_cons.mp hPos).1 y
      (h.sublist.subset hy), hm⟩
  have hMore {m : Mark} {rest : List Mark}
      (h : y.isComment = true ∨
        ∃ z ∈ rest, z.pos < y.pos ∧ z.mayEnd = true) :
      y.isComment = true ∨
        ∃ z ∈ m :: rest, z.pos < y.pos ∧ z.mayEnd = true := by
    rcases h with hComment | ⟨z, hz, hEnds⟩
    · exact Or.inl hComment
    · exact Or.inr ⟨z, List.mem_cons_of_mem m hz, hEnds⟩
  induction h with
  | nil => simp at hy
  | kept _ _ _ _ ih =>
      exact hMore (ih (List.pairwise_cons.mp hPos).2 hy)
  | joined _ _ _ ih =>
      exact hMore (ih (List.pairwise_cons.mp hPos).2 hy)
  | separated hSeparates h _ =>
      exact Or.inr (hBehind (by simp [mayEnd, hSeparates]) h hy hPos)
  | ended hm h _ =>
      exact Or.inr (hBehind (by simp [mayEnd, hm]) h hy hPos)
  | @turned _ inComment m rest records _ _ hFeed h ih =>
      have hy : y ∈ records.flatten := hy
      cases inComment with
      | true =>
          -- The line feed itself belongs to no record.
          have hm : m.separates = true := by
            simp [separates, hFeed rfl]
          have hNe : y ≠ m := by
            rintro rfl
            simp [h.separates_eq_false y hy] at hm
          have hRest : y ∈ rest := by
            simpa [hNe] using h.sublist.subset hy
          exact Or.inr ⟨m, by simp,
            (List.pairwise_cons.mp hPos).1 y hRest,
            by simp [mayEnd, hm]⟩
      | false =>
          cases records with
          | nil => simp at hy
          | cons record records =>
              rcases List.mem_append.mp hy with hFirst | hLater
              · exact Or.inl (h.isUniform_tail.1 y hFirst)
              · exact ih hPos hLater

/-
  Whether a comment starts or something ends between the marks
  of two records.
-/
def Parts
    (marks former latter : List Mark) : Prop :=
  ∀ x ∈ former, ∀ y ∈ latter, y.isComment = true ∨
    ∃ z ∈ marks, x.pos ≤ z.pos ∧ z.pos < y.pos ∧
      z.mayEnd = true

theorem Parts.cons
    {rest former latter : List Mark}
    (h : Parts rest former latter)
    (m : Mark) :
    Parts (m :: rest) former latter := by
  intro x hx y hy
  rcases h x hx y hy with hComment | ⟨z, hz, hEnds⟩
  · exact Or.inl hComment
  · exact Or.inr ⟨z, List.mem_cons_of_mem m hz, hEnds⟩

/- Something parts each record from those behind it. -/
theorem parted
    (h : Recorded paired inComment marks records)
    (hPos : marks.Pairwise fun m n => m.pos < n.pos) :
    records.Pairwise (Parts marks) := by
  induction h with
  | nil => simp
  | @kept _ _ m rest record records _ _ _ h ih =>
      rcases List.pairwise_cons.mp hPos with ⟨hm, hRest⟩
      rcases List.pairwise_cons.mp (ih hRest) with
        ⟨hRecord, hRecords⟩
      refine .cons (fun latter hLatter x hx y hy => ?_)
        (hRecords.imp (Parts.cons · m))
      rcases List.mem_cons.mp hx with rfl | hx
      · have hLater : y ∈ (record :: records).tail.flatten :=
          List.mem_flatten.mpr ⟨latter, hLatter, hy⟩
        rcases h.behind_head hRest hLater with
          hComment | ⟨z, hz, hTo, hEnds⟩
        · exact Or.inl hComment
        · exact Or.inr ⟨z, List.mem_cons_of_mem x hz,
            Nat.le_of_lt (hm z hz), hTo, hEnds⟩
      · exact (hRecord latter hLatter).cons m x hx y hy
  | @joined _ m _ _ _ _ _ ih =>
      exact (ih (List.pairwise_cons.mp hPos).2).imp
        (Parts.cons · m)
  | @separated _ m _ _ _ _ ih =>
      exact .cons (fun _ _ _ hx => by simp at hx)
        ((ih (List.pairwise_cons.mp hPos).2).imp (Parts.cons · m))
  | @ended _ m rest records hm h ih =>
      rcases List.pairwise_cons.mp hPos with ⟨hFirst, hRest⟩
      refine .cons (fun latter hLatter x hx y hy => Or.inr ?_)
        ((ih hRest).imp (Parts.cons · m))
      rw [List.mem_singleton.mp hx]
      exact ⟨m, by simp, Nat.le_refl _,
        hFirst y (h.mem_of_mem_record hLatter hy),
        by simp [mayEnd, hm]⟩
  | turned _ _ _ _ ih =>
      exact .cons (fun _ _ _ hx => by simp at hx) (ih hPos)

end Recorded

------------------------------------------------------------
-- Lines
------------------------------------------------------------

/-
  The line on which a mark stands among all the marks of a
  script: one more than there are line feeds before it.
-/
def lineIn
    (marks : List Mark)
    (m : Mark) : Nat :=
  1 + marks.countP fun n => n.ch == '\n' && n.pos < m.pos

/- Lines are counted in the order of the places. -/
theorem lineIn_le
    (marks : List Mark)
    {m n : Mark}
    (h : m.pos ≤ n.pos) :
    m.lineIn marks ≤ n.lineIn marks := by
  refine Nat.add_le_add_left (List.countP_mono_left ?_) 1
  intro k _ hk
  simp only [Bool.and_eq_true, decide_eq_true_eq] at hk ⊢
  exact ⟨hk.1, Nat.lt_of_lt_of_le hk.2 h⟩

/- Marks whose lines are counted from a given line on. -/
def AreOnLines
    (lineOf : Mark → Nat)
    (line : Nat) : List Mark → Prop
  | [] => True
  | m :: rest =>
      lineOf m = line ∧
        AreOnLines lineOf
          (if m.ch = '\n' then line + 1 else line) rest

/- Only what stands before a mark counts for its line. -/
theorem lineIn_append_cons
    {before after : List Mark}
    {m : Mark}
    (hPos : (before ++ m :: after).Pairwise
      fun m n => m.pos < n.pos) :
    lineIn (before ++ m :: after) m =
      1 + before.countP (·.ch == '\n') := by
  rcases List.pairwise_append.mp hPos with
    ⟨-, hAfter, hBefore⟩
  have hm := (List.pairwise_cons.mp hAfter).1
  have hFront : before.countP
      (fun n => n.ch == '\n' && n.pos < m.pos) =
        before.countP (·.ch == '\n') := by
    refine List.countP_congr fun n hn => ?_
    simp [hBefore n hn m (by simp)]
  have hBack : (m :: after).countP
      (fun n => n.ch == '\n' && n.pos < m.pos) = 0 := by
    refine List.countP_eq_zero.mpr fun n hn => ?_
    rcases List.mem_cons.mp hn with rfl | hn
    · simp
    · have := hm n hn
      simp only [Bool.and_eq_true, decide_eq_true_eq, not_and]
      omega
  rw [lineIn, List.countP_append, hFront, hBack, Nat.add_zero]

theorem areOnLines_append
    (before marks : List Mark)
    (hPos : (before ++ marks).Pairwise
      fun m n => m.pos < n.pos) :
    AreOnLines (lineIn (before ++ marks))
      (1 + before.countP (·.ch == '\n')) marks := by
  induction marks generalizing before with
  | nil => exact True.intro
  | cons m rest ih =>
      have hSplit : before ++ m :: rest =
          (before ++ [m]) ++ rest := by simp
      refine ⟨lineIn_append_cons hPos, ?_⟩
      have hLine : 1 + (before ++ [m]).countP (·.ch == '\n') =
          if m.ch = '\n' then
            1 + before.countP (·.ch == '\n') + 1
          else
            1 + before.countP (·.ch == '\n') := by
        simp only [List.countP_append, List.countP_singleton,
          beq_iff_eq]
        split <;> omega
      rw [← hLine, hSplit]
      exact ih (before ++ [m]) (by rwa [← hSplit])

/- The lines of a script are counted from one on. -/
theorem areOnLines_scan
    (script : Text) :
    AreOnLines (lineIn (scan script)) 1 (scan script) :=
  areOnLines_append [] (scan script) (pairwise_pos_scan script)

end Mark

------------------------------------------------------------
-- Statements of Records
------------------------------------------------------------

namespace Piece

/- The piece of a mark that is kept. -/
def ofKept
    (lineOf : Mark → Nat)
    (m : Mark) : Piece :=
  .char m.ch (lineOf m)

theorem splitOnP_cut
    (pieces : List Piece) :
    (Piece.cut :: pieces).splitOnP isCut =
      [] :: pieces.splitOnP isCut := by
  simp [List.splitOnP_cons_eq_if_modifyHead, isCut]

theorem splitOnP_char
    (c : Char)
    (line : Nat)
    (pieces : List Piece) :
    (Piece.char c line :: pieces).splitOnP isCut =
      (pieces.splitOnP isCut).modifyHead (.char c line :: ·) := by
  simp [List.splitOnP_cons_eq_if_modifyHead, isCut]

/- Whether the marks of a text are cut like the pieces. -/
def AreRecorded
    (lineOf : Mark → Nat)
    (paired inComment : Bool)
    (marks : List Mark)
    (pieces : List Piece) : Prop :=
  ∃ records, Mark.Recorded paired inComment marks records ∧
    pieces.splitOnP isCut =
      records.map (List.map (ofKept lineOf))

namespace AreRecorded

variable {lineOf : Mark → Nat}
variable {paired inComment : Bool}
variable {m : Mark}
variable {rest : List Mark}
variable {pieces : List Piece}

theorem kept
    (h : AreRecorded lineOf (m.opensPair paired) inComment rest
      pieces)
    (hComment : m.isComment = inComment)
    (hSeparates : m.separates = false)
    (hJoint : m.isJoint paired rest.head? = false) :
    AreRecorded lineOf paired inComment (m :: rest)
      (.char m.ch (lineOf m) :: pieces) := by
  rcases h with ⟨records, hRecorded, hSplit⟩
  rcases List.exists_cons_of_ne_nil hRecorded.ne_nil with
    ⟨record, records, rfl⟩
  refine ⟨(m :: record) :: records,
    .kept hComment hSeparates hJoint hRecorded, ?_⟩
  rw [splitOnP_char, hSplit]
  rfl

theorem separated
    (h : AreRecorded lineOf false false rest pieces)
    (hSeparates : m.separates = true) :
    AreRecorded lineOf paired false (m :: rest)
      (.cut :: pieces) := by
  rcases h with ⟨records, hRecorded, hSplit⟩
  refine ⟨[] :: records, .separated hSeparates hRecorded, ?_⟩
  rw [splitOnP_cut, hSplit]
  rfl

theorem ended
    (h : AreRecorded lineOf false false rest pieces)
    (hm : m.isBareChar '&' = true) :
    AreRecorded lineOf paired false (m :: rest)
      (.char m.ch (lineOf m) :: .cut :: pieces) := by
  rcases h with ⟨records, hRecorded, hSplit⟩
  refine ⟨[m] :: records, .ended hm hRecorded, ?_⟩
  rw [splitOnP_char, splitOnP_cut, hSplit]
  rfl

theorem turned
    {isComment : Bool}
    (h : AreRecorded lineOf paired isComment (m :: rest) pieces)
    (hComment : m.isComment = isComment)
    (hm : m.IsReadBehind paired inComment) :
    AreRecorded lineOf paired inComment (m :: rest)
      (ofTurn inComment isComment ++ pieces) := by
  subst hComment
  unfold ofTurn
  split
  next hSame =>
    rw [hSame] at h
    exact h
  next hTurn =>
    have hTurn : m.isComment = !inComment :=
      Bool.eq_not_of_ne hTurn
    rcases h with ⟨records, hRecorded, hSplit⟩
    rw [hTurn] at hRecorded
    refine ⟨[] :: records, .turned hTurn ?_ ?_ hRecorded, ?_⟩
    · intro hOutside
      exact hm.hash (by simp [hTurn, hOutside]) hOutside
    · intro hInside
      exact hm.feed (by simp [hTurn, hInside]) hInside
    · rw [List.singleton_append, splitOnP_cut, hSplit]
      rfl

/- A mark that no other one is paired with. -/
theorem single
    (h : AreRecorded lineOf false m.isComment rest pieces)
    (hm : m.opensPair false = false)
    (before next : Option Char) :
    AreRecorded lineOf false m.isComment (m :: rest)
      (ofMark before next (lineOf m) m ++ pieces) := by
  have hOutside {c : Char} (hBare : m.isBareChar c = true) :
      m.isComment = false := by
    simp [Mark.isComment, (Mark.isBareChar_iff.mp hBare).1]
  unfold ofMark
  split
  next hSeparates =>
    have hComment : m.isComment = false := by
      rcases (Bool.or_eq_true _ _).mp hSeparates with hm | hm <;>
        exact hOutside hm
    rw [hComment] at h ⊢
    exact h.separated hSeparates
  next hSeparates =>
    split
    next hEnds =>
      have hBare := ((Bool.and_eq_true _ _).mp hEnds).1
      rw [hOutside hBare] at h ⊢
      exact h.ended hBare
    next =>
      refine kept (by rwa [hm]) rfl
        (Bool.eq_false_iff.mpr hSeparates) ?_
      simp [Mark.isJoint, hm]

/- A pair is kept, or it vanishes where two lines are joined. -/
theorem pair
    {n : Mark}
    (h : AreRecorded lineOf false false rest pieces)
    (hm : m.opensPair false = true)
    (hRole : m.role = .quoted)
    (hQuoted : n.role = .quoted) :
    AreRecorded lineOf false false (m :: n :: rest)
      (if n.ch = '\n' then
        pieces
      else
        .char m.ch (lineOf m) :: .char n.ch (lineOf n) ::
          pieces) := by
  have hTaken : n.opensPair true = false := by
    simp [Mark.opensPair]
  split
  next hn =>
    rcases h with ⟨records, hRecorded, hSplit⟩
    refine ⟨records, .joined hRole ?_ (.joined hQuoted ?_ ?_),
      hSplit⟩
    · simp [Mark.isJoint, hm, hn]
    · simp [Mark.isJoint, hm, hn]
    · rwa [hm, hTaken]
  next hn =>
    refine kept (kept ?_ ?_ ?_ ?_) ?_ ?_ ?_
    · rwa [hm, hTaken]
    · simp [Mark.isComment, hQuoted]
    · simp [Mark.separates, Mark.isBareChar_of_quoted hQuoted]
    · simp [Mark.isJoint, hm, hTaken, hn]
    · simp [Mark.isComment, hRole]
    · simp [Mark.separates, Mark.isBareChar_of_quoted hRole]
    · simp [Mark.isJoint, hn]

end AreRecorded

/- The pieces of a text between the cuts are its records. -/
theorem areRecorded_ofMarks
    (lineOf : Mark → Nat)
    (inComment : Bool)
    (before : Option Char)
    (line : Nat)
    {marks : List Mark}
    (hRead : Mark.AreRead false inComment marks)
    (hLines : Mark.AreOnLines lineOf line marks) :
    AreRecorded lineOf false inComment marks
      (ofMarks inComment before line marks) := by
  induction marks using Mark.pairInduction
    generalizing inComment before line with
  | nil => exact ⟨[[]], .nil, rfl⟩
  | lone m hm =>
      rcases Mark.opensPair_iff.mp hm with ⟨hc, hComment, -⟩
      have hNil : AreRecorded lineOf (m.opensPair false) false []
          [] := ⟨[[]], .nil, rfl⟩
      rw [ofMarks_lone _ _ _ hm, ← hLines.1]
      refine (hNil.kept hComment ?_ ?_).turned hComment hRead.1
      · simp [Mark.separates, Mark.isBareChar, hc]
      · simp [Mark.isJoint]
  | pair m n rest hm ih =>
      rcases Mark.opensPair_iff.mp hm with ⟨hc, hComment, -⟩
      rcases hRead.behind_pair hm with ⟨hQuoted, hBehind⟩
      have hRole : m.role = .quoted := by
        have hBare := hRead.1.backslash hc
        cases h : m.role <;>
          simp_all [Mark.isBare, Mark.isComment]
      rcases hLines with ⟨hLine, hNext, hLines⟩
      have hFeed : m.ch ≠ '\n' := by simp [hc]
      rw [if_neg hFeed] at hNext
      rw [if_neg hFeed] at hLines
      have hPair := ((ih false n.ch _ hBehind hLines).pair hm hRole
        hQuoted).turned hComment hRead.1
      rw [hLine, hNext] at hPair
      rw [ofMarks_pair _ _ _ hm]
      by_cases hn : n.ch = '\n' <;> simpa [hn] using hPair
  | single m rest hm ih =>
      have hRest := ih m.isComment m.ch _ (hRead.behind_single hm)
        hLines.2
      rw [ofMarks_single _ _ _ hm]
      have hSingle := (hRest.single hm before
        (rest.head?.map Mark.ch)).turned rfl hRead.1
      rw [hLines.1] at hSingle
      exact hSingle

theorem filterMap_char?_ofKept
    (lineOf : Mark → Nat)
    (record : List Mark) :
    (record.map (ofKept lineOf)).filterMap char? =
      Mark.chars record := by
  rw [List.filterMap_map, Mark.chars, ← List.filterMap_eq_map]
  rfl

theorem findSome?_inkedLine?_ofKept
    (lineOf : Mark → Nat)
    (record : List Mark) :
    (record.map (ofKept lineOf)).findSome? inkedLine? =
      (record.find? Mark.isInk).map lineOf := by
  induction record with
  | nil => rfl
  | cons m record ih =>
      cases hBlank : Text.isBlank m.ch <;>
        simp [ofKept, inkedLine?, Mark.isInk, hBlank] at ih ⊢
      exact ih

end Piece

namespace Statement

/- The statements of a record stand on the line of its first ink. -/
def ofRecord
    (marks record : List Mark) : List Statement :=
  (isolate (Text.trim (Mark.chars record))).map fun text =>
    ⟨text, ((record.find? Mark.isInk).map
      (Mark.lineIn marks)).getD 1⟩

/- The records of a script, which make its statements. -/
structure AreRecords
    (script : Text)
    (records : List (List Mark)) : Prop where
  recorded :
    Mark.Recorded false false (Mark.scan script) records
  statements : ofScript script =
    records.flatMap (ofRecord (Mark.scan script))

/- Every script is cut into records. -/
theorem exists_areRecords
    (script : Text) :
    ∃ records, AreRecords script records := by
  rcases Piece.areRecorded_ofMarks _ false none 1
      (Mark.areRead_scan script) (Mark.areOnLines_scan script) with
    ⟨records, hRecorded, hSplit⟩
  refine ⟨records, hRecorded, ?_⟩
  rw [ofScript, hSplit, List.flatMap_map]
  simp only [ofPieces, Piece.filterMap_char?_ofKept,
    Piece.findSome?_inkedLine?_ofKept]
  rfl

end Statement

end ShellToC
