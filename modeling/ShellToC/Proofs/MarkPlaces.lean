import ShellToC.Proofs.ScriptLines

/-
  This file says where the marks of a text stand, and where
  the marks of its parts are found again.

  Every character has one mark, behind the bytes of those
  before it.  A bare character that ends words is only
  reached where nothing is open, and no decision before it
  looks past it.  So a text may be marked up to such a
  character, and then anew from there.

  Main declarations:
    * `Mark.pos_of_getElem?_scan`
    * `Mark.behind_of_bare`
    * `Mark.scan_append_of_bare`
    * `Mark.scan_placed_and_parted`
-/

namespace ShellToC

namespace Mark

------------------------------------------------------------
-- Places
------------------------------------------------------------

/- A mark stands behind the bytes of the text before it. -/
theorem pos_of_getElem?_scan
    {text : Text}
    {i : Nat}
    {m : Mark}
    (h : (scan text)[i]? = some m) :
    m.pos = Text.byteSize (text.take i) := by
  have hLess : i < text.length := by
    rw [← length_scanFrom .start 0 text]
    exact (List.getElem?_eq_some_iff.mp h).1
  have hText : text =
      text.take i ++ text[i] :: text.drop (i + 1) := by
    rw [List.getElem_cons_drop, List.take_append_drop]
  have hMark := getElem?_scanFrom .start 0 (text.take i)
    (text.drop (i + 1)) text[i]
  rw [← hText, List.length_take,
    Nat.min_eq_left (Nat.le_of_lt hLess)] at hMark
  rw [scan, hMark] at h
  cases h
  exact Nat.zero_add _

------------------------------------------------------------
-- Parts
------------------------------------------------------------

/- Nothing is open behind a bare character that ends words. -/
theorem behind_of_bare
    {a b : Text}
    {c : Char}
    (hEnds : Quoting.endsWord c = true)
    (hBare : (scan (a ++ c :: b))[a.length]?.any isBare = true) :
    Quoting.start.behind none (a ++ [c]) = .start := by
  have hDollar : c ≠ '$' := by
    rintro rfl
    contradiction
  have hNext : (Quoting.start.behind (some c) a).step c none =
      (Quoting.start.behind (some c) a).step c b.head? :=
    Quoting.step_congr_next _ _ fun hc => absurd hc hDollar
  have hRole : ((Quoting.start.behind (some c) a).step c none).1 =
      .bare := by
    rw [scan, getElem?_scanFrom, ← hNext] at hBare
    simpa [isBare] using hBare
  calc Quoting.start.behind none (a ++ [c])
      = ((Quoting.start.behind (some c) a).step c none).2 :=
        Quoting.behind_append none .start a [c]
    _ = { Quoting.start with wordStart := Quoting.endsWord c } :=
        (Quoting.step_bare hRole).2.2.2
    _ = .start := by
        rw [hEnds]
        rfl

/- What stands behind such a character is marked by itself. -/
theorem scan_append_of_bare
    {a b : Text}
    {c : Char}
    (hEnds : Quoting.endsWord c = true)
    (hBare : (scan (a ++ c :: b))[a.length]?.any isBare = true) :
    scan (a ++ c :: b) =
      scan (a ++ [c]) ++
        (scan b).map (moveBehind (Text.byteSize (a ++ [c]))) := by
  -- The cut is behind the character: one before it could part
  -- an escaped dollar sign from a parenthesis.
  have hLast : (a ++ [c]).getLast? = some '$' →
      b.head? ≠ some '(' := by
    intro hDollar
    rw [List.getLast?_concat, Option.some_inj] at hDollar
    rw [hDollar] at hEnds
    contradiction
  have hSplit := scanFrom_append .start 0 hLast
  rw [behind_of_bare hEnds hBare, scanFrom_add, List.append_assoc]
    at hSplit
  exact hSplit

/-
  The marks of a text are those of its characters in order,
  each behind the bytes before it, and no character is both
  bare and part of a comment.  The latter is so of all marks,
  for a mark has one `Role`, and a bare character and one of
  a comment have different ones.

  Where a blank, a semicolon, an ampersand, a bar or an
  opening parenthesis is bare, they are the marks up to this
  character, followed by those of the text behind it.
-/
theorem scan_placed_and_parted
    (text : Text) :
    chars (scan text) = text ∧
    (∀ i m, (scan text)[i]? = some m →
      m.pos = Text.byteSize (text.take i)) ∧
    (∀ m ∈ scan text, ¬(m.isBare = true ∧ m.isComment = true)) ∧
    ∀ a c b, text = a ++ c :: b →
      Text.isBlank c = true ∨ c ∈ [';', '&', '|', '('] →
      (scan text)[a.length]?.any isBare = true →
      scan text =
        scan (a ++ [c]) ++
          (scan b).map (moveBehind (Text.byteSize (a ++ [c]))) := by
  refine ⟨chars_scanFrom .start 0 text,
    fun i m => pos_of_getElem?_scan, ?_, ?_⟩
  · rintro m - ⟨hBare, hComment⟩
    rw [isBare, beq_iff_eq] at hBare
    rw [isComment, hBare] at hComment
    contradiction
  · rintro a c b rfl hc hBare
    apply scan_append_of_bare _ hBare
    simpa [Quoting.endsWord, or_assoc] using hc

/-
  Behind a comment with a quote in it and an escaped dollar
  sign, a parenthesis is bare and a comment may start.
-/
theorem scan_placed_and_parted_of_parenthesis :
    let a : Text := "é # '\n\\$"
    let b : Text := "# y"
    let text : Text := a ++ '(' :: b
    (scan text)[a.length]?.any isBare = true ∧
      (scan text).getLast? = some ⟨12, 'y', .comment⟩ ∧
      Text.byteSize (a ++ ['(']) = 10 ∧
      scan text =
        scan (a ++ ['(']) ++ (scan b).map (moveBehind 10) := by
  intro a b text
  have hMarks : (scan text)[a.length]?.any isBare = true ∧
      (scan text).getLast? = some ⟨12, 'y', .comment⟩ := by
    unfold text a b
    repeat rw [Text.ofString_ofList]
    decide +kernel
  have hSize : Text.byteSize (a ++ ['(']) = 10 := by
    unfold a
    rw [Text.ofString_ofList]
    simp only [List.cons_append, List.nil_append,
      Text.byteSize_cons, Text.byteSize_nil]
    decide
  refine ⟨hMarks.1, hMarks.2, hSize, ?_⟩
  have hParts := (scan_placed_and_parted text).2.2.2 a '(' b rfl
    (by simp) hMarks.1
  rwa [hSize] at hParts

end Mark

end ShellToC
