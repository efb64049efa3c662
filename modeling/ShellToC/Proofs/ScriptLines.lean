import ShellToC.Proofs.EscapePairs
import ShellToC.Proofs.ListOperators

/-
  This file puts scripts together line by line.

  Nothing is open behind a bare line feed, neither for quoting
  nor for the cutting into statements.  So the statements of two
  scripts with a bare line feed between them are those of the
  first one and those of the second one, further down.

  Key definitions include:
    * `Statement.moveDown`
    * `Statement.ofCuts`

  Main declarations:
    * `Mark.scanFrom_append_lineFeed`
    * `Piece.ofMarks_append_lineFeed`
    * `Statement.ofScript_append_lineFeed`
-/

namespace ShellToC

------------------------------------------------------------
-- Marks around a Line Feed
------------------------------------------------------------

namespace Mark

/- The mark of a character that stands further behind. -/
def moveBehind
    (bytes : Nat)
    (m : Mark) : Mark :=
  { m with pos := m.pos + bytes }

theorem scanFrom_add
    (q : Quoting)
    (pos bytes : Nat)
    (text : Text) :
    scanFrom q (pos + bytes) text =
      (scanFrom q pos text).map (moveBehind bytes) := by
  induction text generalizing q pos with
  | nil => rfl
  | cons c rest ih =>
      simp only [scanFrom, List.map_cons]
      rw [Nat.add_right_comm, ih]
      rfl

/- Behind a bare character that ends words all starts anew. -/
theorem scanFrom_of_bare
    {q : Quoting}
    {c : Char}
    (hEnds : Quoting.endsWord c = true)
    {b : Text}
    (hRole : (q.step c b.head?).1 = .bare)
    (pos : Nat) :
    scanFrom q pos (c :: b) =
      ⟨pos, c, .bare⟩ ::
        (scan b).map (moveBehind (pos + c.utf8Size)) := by
  rw [scanFrom_cons, hRole, (Quoting.step_bare hRole).2.2.2,
    hEnds, scan, ← scanFrom_add, Nat.zero_add]
  rfl

/- A bare line feed starts the marks behind it anew. -/
theorem scanFrom_append_lineFeed
    {q : Quoting}
    {pos : Nat}
    {a b : Text}
    (h : (scanFrom q pos (a ++ '\n' :: b))[a.length]?.any
      isBare = true) :
    ∃ place bytes, scanFrom q pos (a ++ '\n' :: b) =
      scanFrom q pos a ++ ⟨place, '\n', .bare⟩ ::
        (scan b).map (moveBehind bytes) := by
  rcases exists_scanFrom_append q pos (a := a) (b := '\n' :: b)
    (by simp) with ⟨place, hScan⟩
  have hRole : ((q.behind none a).step '\n' b.head?).1 =
      .bare := by
    rw [hScan, ← length_scanFrom q pos a] at h
    simpa [scanFrom_cons, isBare] using h
  refine ⟨place, place + '\n'.utf8Size, ?_⟩
  rw [hScan, scanFrom_of_bare (by decide) hRole]

/- The line feeds among the marks are those of the text. -/
theorem countP_scan
    (script : Text) :
    (scan script).countP (·.ch == '\n') = script.count '\n' := by
  have hChars := chars_scanFrom .start 0 script
  calc (scan script).countP (·.ch == '\n')
      = (chars (scan script)).count '\n' := by
        rw [List.count, chars, List.countP_map]
        rfl
    _ = script.count '\n' := by rw [scan, hChars]

end Mark

------------------------------------------------------------
-- Pieces around a Line Feed
------------------------------------------------------------

namespace Piece

/- The piece of a character that stands on a later line. -/
def moveDown
    (lines : Nat) : Piece → Piece
  | .cut => .cut
  | .char c line => .char c (line + lines)

@[simp] theorem isCut_moveDown
    (lines : Nat)
    (piece : Piece) :
    (piece.moveDown lines).isCut = piece.isCut := by
  cases piece <;> rfl

@[simp] theorem char?_moveDown
    (lines : Nat)
    (piece : Piece) :
    (piece.moveDown lines).char? = piece.char? := by
  cases piece <;> rfl

@[simp] theorem inkedLine?_moveDown
    (lines : Nat)
    (piece : Piece) :
    (piece.moveDown lines).inkedLine? =
      piece.inkedLine?.map (· + lines) := by
  cases piece with
  | cut => rfl
  | char c line =>
      simp only [moveDown, inkedLine?]
      split <;> rfl

theorem ofMark_moveBehind
    (before after : Option Char)
    (line lines bytes : Nat)
    (m : Mark) :
    ofMark before after (line + lines) (m.moveBehind bytes) =
      (ofMark before after line m).map (moveDown lines) := by
  have hBare (c : Char) : (m.moveBehind bytes).isBareChar c =
      m.isBareChar c := rfl
  simp only [ofMark, hBare]
  split
  · rfl
  · split <;> rfl

@[simp] theorem map_moveDown_ofTurn
    (lines : Nat)
    (inComment isComment : Bool) :
    (ofTurn inComment isComment).map (moveDown lines) =
      ofTurn inComment isComment := by
  unfold ofTurn
  split <;> rfl

/- Where the marks stand matters to the lines of the pieces only. -/
theorem ofMarks_moveBehind
    (inComment : Bool)
    (before : Option Char)
    (line lines bytes : Nat)
    (marks : List Mark) :
    ofMarks inComment before (line + lines)
        (marks.map (Mark.moveBehind bytes)) =
      (ofMarks inComment before line marks).map
        (moveDown lines) := by
  induction marks using Mark.pairInduction
    generalizing inComment before line with
  | nil => rfl
  | lone m hm =>
      have hMoved : (m.moveBehind bytes).opensPair false = true :=
        hm
      rw [List.map_singleton, ofMarks_lone _ _ _ hMoved,
        ofMarks_lone _ _ _ hm, List.map_append,
        map_moveDown_ofTurn]
      rfl
  | pair m n rest hm ih =>
      have hMoved : (m.moveBehind bytes).opensPair false = true :=
        hm
      have hFeed : (n.moveBehind bytes).ch = n.ch := rfl
      rw [List.map_cons, List.map_cons, ofMarks_pair _ _ _ hMoved,
        ofMarks_pair _ _ _ hm, hFeed, List.map_append,
        map_moveDown_ofTurn, Nat.add_right_comm, ih]
      split
      · rfl
      · rw [ih]
        rfl
  | single m rest hm ih =>
      have hMoved :
          (m.moveBehind bytes).opensPair false = false := hm
      have hHead :
          (rest.map (Mark.moveBehind bytes)).head?.map Mark.ch =
            rest.head?.map Mark.ch := by
        cases rest <;> rfl
      have hLine : (if m.ch = '\n' then line + lines + 1
          else line + lines) =
            (if m.ch = '\n' then line + 1 else line) + lines := by
        split <;> omega
      rw [List.map_cons, ofMarks_single _ _ _ hMoved,
        ofMarks_single _ _ _ hm, hHead, ofMark_moveBehind,
        List.map_append, List.map_append, map_moveDown_ofTurn,
        ← ih, ← hLine]
      rfl

/- A line feed before the marks is as good as nothing. -/
theorem ofMarks_behind_lineFeed
    (inComment : Bool)
    (line : Nat)
    (marks : List Mark) :
    ofMarks inComment (some '\n') line marks =
      ofMarks inComment none line marks := by
  cases marks with
  | nil => rfl
  | cons m rest =>
      have hEnds (after : Option Char) :
          endsStatement (some '\n') after =
            endsStatement none after := rfl
      rw [ofMarks.eq_def, ofMarks.eq_def inComment none]
      simp only [ofMark, hEnds]

/-
  What stands behind a bare line feed is cut as if nothing stood
  before it.  The line feed behind a comment cuts twice.
-/
theorem ofMarks_append_lineFeed
    (inComment : Bool)
    (before : Option Char)
    (line : Nat)
    {a b : List Mark}
    {m : Mark}
    (hm : m.isBareChar '\n' = true)
    (hRead : Mark.AreRead false inComment (a ++ m :: b)) :
    ∃ isComment,
      ofMarks inComment before line (a ++ m :: b) =
        ofMarks inComment before line a ++
          (ofTurn isComment false ++ .cut ::
            ofMarks false none
              (line + (1 + a.countP (·.ch == '\n'))) b) := by
  have hFeed := (Mark.isBareChar_iff.mp hm).symm
  induction a using Mark.pairInduction
    generalizing inComment before line with
  | nil =>
      have hSingle : m.opensPair false = false := by
        simp [Mark.opensPair, hFeed.1]
      have hOutside : m.isComment = false := by
        simp [Mark.isComment, hFeed.2]
      refine ⟨inComment, ?_⟩
      rw [List.nil_append, ofMarks_single _ _ _ hSingle, hOutside,
        ofMark, hm, hFeed.1, ofMarks_behind_lineFeed]
      rfl
  | lone n hn =>
      -- The line feed would be taken along.
      have hQuoted := (hRead.behind_pair hn).1
      simp [hFeed.2] at hQuoted
  | pair n k rest hn ih =>
      have hBehind := (hRead.behind_pair hn).2
      have hn' : n.ch ≠ '\n' := by
        simp [(Mark.opensPair_iff.mp hn).1]
      simp only [List.cons_append, ofMarks_pair _ _ _ hn]
      split
      next hk =>
        rcases ih false (some k.ch) (line + 1) hBehind with
          ⟨isComment, hRest⟩
        refine ⟨isComment, ?_⟩
        have hLine : line + 1 + (1 + rest.countP (·.ch == '\n')) =
            line + (1 + (n :: k :: rest).countP
              (·.ch == '\n')) := by
          simp [hk, hn']
          omega
        rw [hRest, hLine, List.append_assoc]
      next hk =>
        rcases ih false (some k.ch) line hBehind with
          ⟨isComment, hRest⟩
        refine ⟨isComment, ?_⟩
        have hLine : rest.countP (·.ch == '\n') =
            (n :: k :: rest).countP (·.ch == '\n') := by
          simp [hk, hn']
        rw [hRest, hLine, List.append_assoc]
        rfl
  | single n rest hn ih =>
      have hBehind := hRead.behind_single hn
      rcases ih n.isComment n.ch
          (if n.ch = '\n' then line + 1 else line) hBehind with
        ⟨isComment, hRest⟩
      refine ⟨isComment, ?_⟩
      have hLine : (if n.ch = '\n' then line + 1 else line) +
          (1 + rest.countP (·.ch == '\n')) =
            line + (1 + (n :: rest).countP (·.ch == '\n')) := by
        simp only [List.countP_cons, beq_iff_eq]
        split <;> omega
      have hNext : ofMark before
          ((rest ++ m :: b).head?.map Mark.ch) line n =
            ofMark before (rest.head?.map Mark.ch) line n := by
        cases rest with
        | nil =>
            have hEnds : endsStatement before (some '\n') =
                endsStatement before none := rfl
            simp [ofMark, hFeed.1, hEnds]
        | cons k rest => rfl
      rw [List.cons_append, ofMarks_single _ _ _ hn, hRest,
        ofMarks_single _ _ _ hn, hNext, hLine]
      simp only [List.append_assoc]

end Piece

------------------------------------------------------------
-- Statements around a Line Feed
------------------------------------------------------------

namespace Statement

/- A statement that stands on a later line. -/
def moveDown
    (lines : Nat)
    (s : Statement) : Statement :=
  { s with line := s.line + lines }

/- The statements between the cuts of pieces. -/
def ofCuts
    (pieces : List Piece) : List Statement :=
  (pieces.splitOnP Piece.isCut).flatMap ofPieces

theorem ofCuts_append_cut
    (a b : List Piece) :
    ofCuts (a ++ .cut :: b) = ofCuts a ++ ofCuts b := by
  rw [ofCuts, List.splitOnP_append_cons a b rfl,
    List.flatMap_append]
  rfl

/- Pieces without ink make no statement. -/
theorem ofPieces_eq_nil
    {pieces : List Piece}
    (h : pieces.findSome? Piece.inkedLine? = none) :
    ofPieces pieces = [] := by
  have hBlank : Text.isAllBlank
      (pieces.filterMap Piece.char?) = true := by
    refine List.all_eq_true.mpr fun c hc => ?_
    rcases List.mem_filterMap.mp hc with ⟨piece, hPiece, hChar⟩
    have hNone := List.findSome?_eq_none_iff.mp h piece hPiece
    cases piece with
    | cut => simp [Piece.char?] at hChar
    | char d line =>
        cases hChar
        simpa [Piece.inkedLine?] using hNone
  rw [ofPieces, Text.trim_of_isAllBlank hBlank, isolate]
  rfl

theorem ofPieces_moveDown
    (lines : Nat)
    (pieces : List Piece) :
    ofPieces (pieces.map (Piece.moveDown lines)) =
      (ofPieces pieces).map (moveDown lines) := by
  have hInked : (pieces.map (Piece.moveDown lines)).findSome?
      Piece.inkedLine? =
        (pieces.findSome? Piece.inkedLine?).map (· + lines) := by
    induction pieces with
    | nil => rfl
    | cons piece pieces ih =>
        cases hLine : piece.inkedLine? <;> simp [hLine, ih]
  cases hLine : pieces.findSome? Piece.inkedLine? with
  | none =>
      rw [hLine] at hInked
      rw [ofPieces_eq_nil hInked, ofPieces_eq_nil hLine]
      rfl
  | some line =>
      rw [hLine] at hInked
      have hChars : Piece.char? ∘ Piece.moveDown lines =
          Piece.char? := funext (Piece.char?_moveDown lines)
      rw [ofPieces, ofPieces, hInked, hLine, List.filterMap_map,
        hChars, List.map_map]
      rfl

theorem splitOnP_moveDown
    (lines : Nat)
    (pieces : List Piece) :
    (pieces.map (Piece.moveDown lines)).splitOnP Piece.isCut =
      (pieces.splitOnP Piece.isCut).map
        (List.map (Piece.moveDown lines)) := by
  induction pieces with
  | nil => rfl
  | cons piece pieces ih =>
      rw [List.map_cons, List.splitOnP_cons_eq_if_modifyHead, ih,
        List.splitOnP_cons_eq_if_modifyHead,
        Piece.isCut_moveDown]
      split
      · rfl
      · cases pieces.splitOnP Piece.isCut <;> rfl

theorem ofCuts_moveDown
    (lines : Nat)
    (pieces : List Piece) :
    ofCuts (pieces.map (Piece.moveDown lines)) =
      (ofCuts pieces).map (moveDown lines) := by
  rw [ofCuts, ofCuts, splitOnP_moveDown, List.flatMap_map,
    List.map_flatMap]
  simp only [ofPieces_moveDown]

/- Two cuts are as good as one. -/
theorem ofCuts_append_turn
    (isComment : Bool)
    (a b : List Piece) :
    ofCuts (a ++ (Piece.ofTurn isComment false ++ .cut :: b)) =
      ofCuts a ++ ofCuts b := by
  cases isComment with
  | false => exact ofCuts_append_cut a b
  | true =>
      have hNil : ofCuts [] = [] := by
        rw [ofCuts, List.splitOnP_nil, List.flatMap_singleton]
        exact ofPieces_eq_nil rfl
      have hCut : ofCuts (.cut :: b) = ofCuts [] ++ ofCuts b :=
        ofCuts_append_cut [] b
      rw [hNil, List.nil_append] at hCut
      rw [← hCut]
      exact ofCuts_append_cut a (.cut :: b)

/-
  The statements of two scripts with a bare line feed between
  them are those of the first one and, further down, those of
  the second one.
-/
theorem ofScript_append_lineFeed
    (a b : Text)
    (h : (Mark.scan (a ++ '\n' :: b))[a.length]?.any
      Mark.isBare = true) :
    ofScript (a ++ '\n' :: b) =
      ofScript a ++
        (ofScript b).map (moveDown (1 + a.count '\n')) := by
  rcases Mark.scanFrom_append_lineFeed h with
    ⟨place, bytes, hScan⟩
  have hRead := Mark.areRead_scan (a ++ '\n' :: b)
  rw [Mark.scan, hScan] at hRead
  rcases Piece.ofMarks_append_lineFeed false none 1 rfl hRead with
    ⟨isComment, hPieces⟩
  have hCount : (Mark.scanFrom .start 0 a).countP (·.ch == '\n') =
      a.count '\n' := Mark.countP_scan a
  rw [← hScan, hCount, Piece.ofMarks_moveBehind] at hPieces
  calc ofScript (a ++ '\n' :: b)
      = ofCuts (Piece.ofMarks false none 1 (Mark.scan a) ++
          (Piece.ofTurn isComment false ++ .cut ::
            (Piece.ofMarks false none 1 (Mark.scan b)).map
              (Piece.moveDown (1 + a.count '\n')))) :=
        congrArg ofCuts hPieces
    _ = ofScript a ++ ofCuts
          ((Piece.ofMarks false none 1 (Mark.scan b)).map
            (Piece.moveDown (1 + a.count '\n'))) :=
        ofCuts_append_turn isComment _ _
    _ = ofScript a ++
          (ofScript b).map (moveDown (1 + a.count '\n')) := by
        rw [ofCuts_moveDown]
        rfl

/-
  A quoted line feed, a job, joined lines and a comment that
  ends in a backslash, and keywords in the second script.
-/
theorem ofScript_append_lineFeed_of_comment :
    let a : Text := "echo 'x\ny' & z \\\n w # c \\"
    let b : Text := "\n then \\\n fi"
    (Mark.scan (a ++ '\n' :: b))[a.length]?.any Mark.isBare =
        true ∧
      (ofScript a).length = 3 ∧ (ofScript b).length = 2 ∧
      ofScript (a ++ '\n' :: b) =
        ofScript a ++
          (ofScript b).map (moveDown (1 + a.count '\n')) := by
  intro a b
  have hScripts :
      (Mark.scan (a ++ '\n' :: b))[a.length]?.any Mark.isBare =
          true ∧
        (ofScript a).length = 3 ∧ (ofScript b).length = 2 := by
    unfold a b
    repeat rw [Text.ofString_ofList]
    decide +kernel
  exact ⟨hScripts.1, hScripts.2.1, hScripts.2.2,
    ofScript_append_lineFeed a b hScripts.1⟩

end Statement

end ShellToC
