import ShellToC.Proofs.BackgroundJobs
import ShellToC.Proofs.ScriptLines

/-
  This file cuts texts at bare characters.

  Behind a bare character that ends words all starts anew.  So
  what stands between two cuts has the same roles in the text
  as it has alone, and to cut a text is to cut what stands
  before a cut and what stands behind it.  Words are cut this
  way, and so are the stages of pipelines.

  Key definitions include:
    * `Mark.isBareIn`
    * `Mark.runs`
    * `Mark.IsWhole`
    * `Mark.BareBehind`

  Main declarations:
    * `Mark.runs_append_cut`
    * `Mark.cutInduction`
    * `Word.split_rejoined`
-/

namespace ShellToC

namespace Mark

------------------------------------------------------------
-- Cuts
------------------------------------------------------------

/- Whether the mark is a bare character of the kind. -/
def isBareIn
    (kind : Char → Bool)
    (m : Mark) : Bool :=
  m.isBare && kind m.ch

/- The texts between the bare characters of a kind. -/
def runs
    (kind : Char → Bool)
    (text : Text) : List Text :=
  ((scan text).splitOnP (isBareIn kind)).map chars

/- No bare character of the kind stands in the text. -/
def IsWhole
    (kind : Char → Bool)
    (text : Text) : Prop :=
  ∀ m ∈ scan text, m.isBareIn kind = false

/- The character is bare if it stands behind the text. -/
def BareBehind
    (text : Text)
    (c : Char) : Prop :=
  ((Quoting.start.behind none text).step c none).1 = .bare

/- Words end at characters of the kind, which open no parenthesis. -/
def EndsWords
    (kind : Char → Bool) : Prop :=
  ∀ c, kind c = true → Quoting.endsWord c = true ∧ c ≠ '('

theorem endsWords_isBlank : EndsWords Text.isBlank := by
  intro c hc
  refine ⟨?_, Text.ne_of_isBlank hc (by decide)⟩
  simp [Quoting.endsWord, hc]

theorem EndsWords.ne_dollar
    {kind : Char → Bool}
    (hKind : EndsWords kind)
    {c : Char}
    (hc : kind c = true) :
    c ≠ '$' := by
  rintro rfl
  exact absurd (hKind _ hc).1 (by decide)

variable {kind : Char → Bool}

/- All starts anew behind a cut. -/
theorem EndsWords.exists_scan_append
    (hKind : EndsWords kind)
    {a : Text}
    {c : Char}
    (hc : kind c = true)
    (hBare : BareBehind a c)
    (b : Text) :
    ∃ place bytes, scan (a ++ c :: b) =
      scan a ++ ⟨place, c, .bare⟩ ::
        (scan b).map (moveBehind bytes) := by
  rcases hKind c hc with ⟨hEnds, hParen⟩
  rcases exists_scanFrom_append .start 0 (a := a)
    (b := c :: b) (by simp [hParen]) with ⟨place, hScan⟩
  have hRole :
      ((Quoting.start.behind none a).step c b.head?).1 =
        .bare := by
    rw [← hBare]
    apply congrArg Prod.fst
    apply Quoting.step_congr_next
    intro hDollar
    exact absurd hDollar (hKind.ne_dollar hc)
  refine ⟨place, place + c.utf8Size, ?_⟩
  rw [scan, hScan, scanFrom_of_bare hEnds hRole]
  rfl

/- What stands between cuts does not depend on its place. -/
theorem map_chars_splitOnP_moveBehind
    (bytes : Nat)
    (marks : List Mark) :
    ((marks.map (moveBehind bytes)).splitOnP
        (isBareIn kind)).map chars =
      (marks.splitOnP (isBareIn kind)).map chars := by
  induction marks with
  | nil => rfl
  | cons m marks ih =>
      have hSame : (m.moveBehind bytes).isBareIn kind =
          m.isBareIn kind := rfl
      rw [List.map_cons, List.splitOnP_cons_eq_if_modifyHead,
        List.splitOnP_cons_eq_if_modifyHead, hSame]
      split
      · rw [List.map_cons, List.map_cons, ih]
      · generalize (marks.map (moveBehind bytes)).splitOnP
          (isBareIn kind) = moved at ih ⊢
        generalize marks.splitOnP (isBareIn kind) = runs at ih ⊢
        cases moved <;> cases runs <;>
          simp_all [chars, moveBehind]

/- To cut a text is to cut what stands before and behind a cut. -/
theorem runs_append_cut
    (hKind : EndsWords kind)
    {a : Text}
    {c : Char}
    (hc : kind c = true)
    (hBare : BareBehind a c)
    (b : Text) :
    runs kind (a ++ c :: b) = runs kind a ++ runs kind b := by
  rcases hKind.exists_scan_append hc hBare b with
    ⟨place, bytes, hScan⟩
  have hCut : isBareIn kind ⟨place, c, .bare⟩ = true := by
    simpa [isBareIn, isBare] using hc
  rw [runs, hScan, List.splitOnP_append_cons _ _ hCut,
    List.map_append, map_chars_splitOnP_moveBehind, runs, runs]

/- A text without cuts stays as it is. -/
theorem IsWhole.runs_eq
    {text : Text}
    (h : IsWhole kind text) :
    runs kind text = [text] := by
  rw [runs, List.splitOnP_eq_singleton h, List.map_singleton,
    scan, chars_scanFrom]

/- A text has no cut, or there is a first one. -/
theorem EndsWords.isWhole_or_exists_cut
    (hKind : EndsWords kind)
    (text : Text) :
    IsWhole kind text ∨
      ∃ a c b, text = a ++ c :: b ∧ IsWhole kind a ∧
        kind c = true ∧ BareBehind a c := by
  cases hFind : (scan text).find? (isBareIn kind) with
  | none =>
      left
      intro m hm
      simpa using List.find?_eq_none.mp hFind m hm
  | some m =>
      right
      rcases List.find?_eq_some_iff_append.mp hFind with
        ⟨hm, before, after, hScan, hBefore⟩
      rcases Pipeline.role_of_scanFrom hScan with ⟨hText, hRole⟩
      simp only [isBareIn, isBare, Bool.and_eq_true,
        beq_iff_eq] at hm
      have hBare : BareBehind (chars before) m.ch := by
        have hNext : some m.ch = some '(' ↔
            (none : Option Char) = some '(' := by
          simp [(hKind _ hm.2).2]
        rw [hm.1, Quoting.behind_congr_next hNext] at hRole
        rw [BareBehind, hRole]
        apply congrArg Prod.fst
        apply Quoting.step_congr_next
        intro hDollar
        exact absurd hDollar (hKind.ne_dollar hm.2)
      refine ⟨chars before, m.ch, chars after, hText, ?_, hm.2,
        hBare⟩
      rcases hKind.exists_scan_append hm.2 hBare (chars after)
        with ⟨place, bytes, hCut⟩
      have hSame : scan (chars before) = before := by
        rw [← hText, hScan] at hCut
        refine (List.append_inj_left hCut ?_).symm
        rw [scan, length_scanFrom, chars, List.length_map]
      intro k hk
      rw [hSame] at hk
      simpa using hBefore k hk

/- Texts are taken apart at their cuts, from the left. -/
theorem cutInduction
    (hKind : EndsWords kind)
    {motive : Text → Prop}
    (whole : ∀ a, IsWhole kind a → motive a)
    (cut : ∀ a c b, IsWhole kind a → kind c = true →
      BareBehind a c → motive b → motive (a ++ c :: b))
    (text : Text) :
    motive text := by
  rcases hKind.isWhole_or_exists_cut text with
    hWhole | ⟨a, c, b, hText, ha, hc, hBare⟩
  · exact whole text hWhole
  · have hShorter : b.length < text.length := by
      rw [hText, List.length_append, List.length_cons]
      omega
    rw [hText]
    exact cut a c b ha hc hBare
      (cutInduction hKind whole cut b)
  termination_by text.length

end Mark

------------------------------------------------------------
-- Words
------------------------------------------------------------

namespace Word

open Mark

theorem split_append_cut
    {a : Text}
    {c : Char}
    (hc : Text.isBlank c = true)
    (hBare : BareBehind a c)
    (b : Text) :
    split (a ++ c :: b) = split a ++ split b := by
  have hRuns := runs_append_cut endsWords_isBlank hc hBare b
  exact (congrArg (List.filter (!·.isEmpty)) hRuns).trans
    (List.filter_append ..)

/- A text without bare blanks is one word, unless it is empty. -/
theorem split_of_isWhole
    {text : Text}
    (h : IsWhole Text.isBlank text)
    (hText : text ≠ []) :
    split text = [text] := by
  have hRuns : split text =
      (runs Text.isBlank text).filter (!·.isEmpty) := rfl
  simp [hRuns, h.runs_eq, hText]

/- Where a blank is bare, a line feed is bare too. -/
theorem bareBehind_lineFeed
    {text : Text}
    {c : Char}
    (h : BareBehind text c) :
    BareBehind text '\n' := by
  rcases Quoting.step_bare h with ⟨hNeutral, hPending, -, -⟩
  rw [BareBehind, Quoting.step_lineFeed hNeutral hPending]

/- Words on lines of their own are read as the same words. -/
theorem split_joinWith_lineFeed
    (text : Text) :
    split (Text.joinWith ['\n'] (split text)) = split text := by
  induction text using cutInduction endsWords_isBlank with
  | whole a ha =>
      by_cases hNil : a = []
      · rw [hNil]
        rfl
      · have hOne := split_of_isWhole ha hNil
        rw [hOne, Text.joinWith, List.intercalate_singleton, hOne]
  | cut a c b ha hc hBare ih =>
      rw [split_append_cut hc hBare]
      by_cases hNil : a = []
      · rw [hNil]
        exact ih
      · have hOne := split_of_isWhole ha hNil
        rw [hOne]
        cases hRest : split b with
        | nil =>
            rw [List.append_nil, Text.joinWith,
              List.intercalate_singleton, hOne]
        | cons word words =>
            have hJoin : Text.joinWith ['\n']
                ([a] ++ word :: words) =
                  a ++ '\n' ::
                    Text.joinWith ['\n'] (word :: words) := by
              simp [Text.joinWith, List.intercalate_cons_cons]
            rw [hRest] at ih
            rw [hJoin, split_append_cut (by decide)
              (bareBehind_lineFeed hBare), hOne, ih]

/-
  The words of a text are not empty, and one after the other
  they are the text without its bare blanks.  Joined by line
  feeds, they are split into the same words again.
-/
theorem split_rejoined
    (text : Text) :
    (∀ word ∈ split text, word ≠ []) ∧
      (split text).flatten =
        chars ((scan text).filter (!·.isBareBlank)) ∧
      split (Text.joinWith "\n" (split text)) = split text := by
  refine ⟨?_, ?_, ?_⟩
  · intro word hWord hNil
    have hMem := (List.mem_filter.mp hWord).2
    simp [hNil] at hMem
  · rw [split, List.flatten_filter_not_isEmpty, chars,
      ← flatten_splitOnP, List.map_flatten]
    rfl
  · rw [Text.ofString_ofList]
    exact split_joinWith_lineFeed text

end Word

end ShellToC
