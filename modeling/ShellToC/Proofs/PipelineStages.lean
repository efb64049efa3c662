import ShellToC.Proofs.BareCuts
import ShellToC.Proofs.HandedOver
import ShellToC.Proofs.Spelling

/-
  This file follows the stages of a pipeline from the bare
  pipe signs of a statement to the array of commands that the
  program declares.

  The blanks around a stage are cut off without regard to
  quoting, so a stage may end in a backslash that had escaped
  a blank.  What is read behind the stage does not change if a
  line feed takes the place of the blanks: it is escaped in
  turn, or ends a comment.

  Key definitions include:
    * `Pipeline.Laid`
    * `Pipeline.IsCutInto`
    * `Lexeme.elements`
    * `Event.RunsStages`

  Main declarations:
    * `Pipeline.parts_joinWith_parts`
    * `Pipeline.isCutInto_of_stages?`
    * `Event.runsStages_pipeline`
    * `Command.pipelines_run_stages`
-/

namespace ShellToC

------------------------------------------------------------
-- Blanks around a Text
------------------------------------------------------------

namespace Text

/- Blanks start with none of the characters that are not blank. -/
theorem head?_ne_of_all_isBlank
    {blanks : Text}
    (h : blanks.all isBlank = true)
    {c : Char}
    (hc : isBlank c = false) :
    blanks.head? ≠ some c := by
  intro hHead
  have hBlank := List.all_eq_true.mp h _ (List.mem_of_head? hHead)
  simp [hc] at hBlank

/- What trimming leaves of a trimmed text with blanks around it. -/
theorem IsTrimmed.trim_around
    {lead text tail : Text}
    (h : text.IsTrimmed)
    (hLead : lead.all isBlank = true)
    (hTail : tail.all isBlank = true) :
    trim (lead ++ (text ++ tail)) = text := by
  by_cases hNil : text = []
  · rw [hNil, List.nil_append]
    apply trim_of_isAllBlank
    rw [isAllBlank, List.all_append, hLead, hTail, Bool.and_self]
  · have hHead : (text ++ tail).head?.all (! isBlank ·) = true := by
      cases text with
      | nil => contradiction
      | cons c rest => exact h.head
    have hStart : trimStart (lead ++ (text ++ tail)) =
        text ++ tail := by
      rw [trimStart, List.dropWhile_append_of_pos
        (List.all_eq_true.mp hLead)]
      exact trimStart_of_head? hHead
    have hEnd : trimEnd (text ++ tail) = trimEnd text := by
      rw [trimEnd, trimEnd, List.reverse_append,
        List.dropWhile_append_of_pos]
      intro c hc
      exact List.all_eq_true.mp hTail c (List.mem_reverse.mp hc)
    rw [trim, hStart, hEnd, trimEnd_of_getLast? h.last]

end Text

namespace Mark

variable {kind : Char → Bool}

/- Blanks around a text open and close nothing in it. -/
theorem isWhole_around_iff
    (hKind : ∀ c, Text.isBlank c = true → kind c = false)
    {lead text tail : Text}
    (hLead : lead.all Text.isBlank = true)
    (hTail : tail.all Text.isBlank = true) :
    IsWhole kind (lead ++ (text ++ tail)) ↔
      IsWhole kind text := by
  have hLast : lead.getLast? = some '$' →
      (text ++ tail).head? ≠ some '(' := by
    intro hLast
    have hBlank := List.all_eq_true.mp hLead _
      (List.mem_of_getLast? hLast)
    exact absurd hBlank (by decide)
  have hNext : tail.head? ≠ some '(' :=
    Text.head?_ne_of_all_isBlank hTail (by decide)
  rcases exists_scanFrom_append .start 0 hLast with
    ⟨place, hFirst⟩
  rcases exists_scanFrom_append .start place (a := text)
    (fun _ => hNext) with
    ⟨last, hSecond⟩
  rw [Quoting.behind_blanks Quoting.isOpen_start none hLead
    (Or.inr rfl), hSecond] at hFirst
  have hBlanks (blanks : Text)
      (h : blanks.all Text.isBlank = true)
      (q : Quoting)
      (pos : Nat) :
      ∀ m ∈ scanFrom q pos blanks, m.isBareIn kind = false := by
    intro m hm
    have hChar : m.ch ∈ blanks := by
      rw [← chars_scanFrom q pos blanks]
      exact List.mem_map_of_mem hm
    rw [isBareIn, hKind _ (List.all_eq_true.mp h _ hChar),
      Bool.and_false]
  have hMoved : (∀ m ∈ scanFrom .start place text,
      m.isBareIn kind = false) ↔ IsWhole kind text := by
    rw [← Nat.zero_add place, scanFrom_add, List.forall_mem_map]
    rfl
  rw [IsWhole, scan, hFirst, List.forall_mem_append,
    List.forall_mem_append, hMoved]
  exact ⟨fun h => h.2.1, fun h =>
    ⟨hBlanks lead hLead _ _, h, hBlanks tail hTail _ _⟩⟩

/-
  Whether a pipe sign is bare behind a text, with the blanks
  around that text apart.
-/
theorem bareBehind_around_iff
    {lead text tail : Text}
    (hLead : lead.all Text.isBlank = true)
    (hTail : tail.all Text.isBlank = true) :
    BareBehind (lead ++ (text ++ tail)) '|' ↔
      (Quoting.start.behind none text).isNeutral = true ∧
        (Quoting.start.behind none text).isEndedBy tail =
          true := by
  have hNext : tail.head?.or none = some '(' ↔
      (none : Option Char) = some '(' := by
    have hHead := Text.head?_ne_of_all_isBlank hTail
      (c := '(') (by decide)
    simp [hHead]
  rw [BareBehind, Quoting.step_operator_iff (Or.inr rfl),
    Quoting.behind_append,
    Quoting.behind_blanks Quoting.isOpen_start _ hLead
      (Or.inr rfl),
    Quoting.behind_append, Quoting.behind_congr_next hNext,
    Quoting.isOpen_behind_blanks_iff _ _ hTail]

end Mark

------------------------------------------------------------
-- Stages
------------------------------------------------------------

namespace Pipeline

open Mark

/-
  The stages stand among the marks in their order, with a bare
  pipe sign between neighbours and blanks around them.
-/
inductive Laid : List Mark → List Text → Prop where
  | last {marks : List Mark} {lead stage tail : Text}
      (hMarks : chars marks = lead ++ (stage ++ tail))
      (hLead : lead.all Text.isBlank = true)
      (hTail : tail.all Text.isBlank = true) :
      Laid marks [stage]
  | pipe {marks rest : List Mark} {m : Mark}
      {lead stage tail : Text} {stages : List Text}
      (hMarks : chars marks = lead ++ (stage ++ tail))
      (hLead : lead.all Text.isBlank = true)
      (hTail : tail.all Text.isBlank = true)
      (hPipe : m.isBareChar '|' = true)
      (hRest : Laid rest stages) :
      Laid (marks ++ m :: rest) (stage :: stages)

/- Pipe signs end words. -/
theorem endsWords_pipe : EndsWords (· == '|') := by
  intro c hc
  rw [beq_iff_eq] at hc
  subst hc
  decide

theorem beq_pipe_of_isBlank
    (c : Char)
    (hc : Text.isBlank c = true) :
    (c == '|') = false := by
  rw [beq_eq_false_iff_ne]
  exact Text.ne_of_isBlank hc (by decide)

/- The parts of a text are trimmed runs. -/
theorem parts_eq
    (text : Text) :
    parts text = (runs (· == '|') text).map Text.trim := by
  rw [runs, List.map_map]
  rfl

theorem parts_ne_nil
    (text : Text) :
    parts text ≠ [] := by
  rw [parts_eq, runs]
  simp [List.splitOnP_ne_nil]

theorem parts_append_cut
    {a : Text}
    (hBare : BareBehind a '|')
    (b : Text) :
    parts (a ++ '|' :: b) = parts a ++ parts b := by
  rw [parts_eq, parts_eq, parts_eq, ← List.map_append,
    runs_append_cut endsWords_pipe (by decide) hBare]

theorem parts_of_isWhole
    {text : Text}
    (h : IsWhole (· == '|') text) :
    parts text = [Text.trim text] := by
  rw [parts_eq, h.runs_eq, List.map_singleton]

/- Texts are taken apart at their bare pipe signs, from the left. -/
theorem pipeInduction
    {motive : Text → Prop}
    (whole : ∀ a, IsWhole (· == '|') a → motive a)
    (cut : ∀ a b, IsWhole (· == '|') a → BareBehind a '|' →
      motive b → motive (a ++ '|' :: b))
    (text : Text) :
    motive text := by
  induction text using cutInduction endsWords_pipe with
  | whole a ha => exact whole a ha
  | cut a c b ha hc hBare ih =>
      rw [beq_iff_eq] at hc
      subst hc
      exact cut a b ha hBare ih

/- A text with blanks around it holds the pipe signs of its middle. -/
theorem isWhole_around
    {lead text tail : Text}
    (hLead : lead.all Text.isBlank = true)
    (hTail : tail.all Text.isBlank = true) :
    IsWhole (· == '|') (lead ++ (text ++ tail)) ↔
      IsWhole (· == '|') text :=
  isWhole_around_iff beq_pipe_of_isBlank hLead hTail

theorem isWhole_trim
    {text : Text}
    (h : IsWhole (· == '|') text) :
    IsWhole (· == '|') (Text.trim text) := by
  rcases Text.trim_split text with
    ⟨lead, tail, hLead, hTail, hText⟩
  rw [hText] at h
  exact (isWhole_around hLead hTail).mp h

/- A blank before a text makes no difference to its parts. -/
theorem parts_blank
    {c : Char}
    (hc : Text.isBlank c = true)
    (text : Text) :
    parts (c :: text) = parts text := by
  have hLead : [c].all Text.isBlank = true := by simp [hc]
  have hTail : ([] : Text).all Text.isBlank = true := rfl
  have hFirst (a : Text) (ha : IsWhole (· == '|') a) :
      parts (c :: a) = parts a := by
    have hWhole := (isWhole_around hLead hTail).mpr ha
    rw [List.append_nil] at hWhole
    have hTrim : Text.trim (c :: a) = Text.trim a := by
      simp [Text.trim, Text.trimStart, hc]
    rw [parts_of_isWhole ha, ← hTrim]
    exact parts_of_isWhole hWhole
  induction text using pipeInduction with
  | whole a ha => exact hFirst a ha
  | cut a b ha hBare _ =>
      have hSame : BareBehind ([c] ++ (a ++ [])) '|' ↔
          BareBehind ([] ++ (a ++ [])) '|' := by
        rw [bareBehind_around_iff hLead hTail,
          bareBehind_around_iff hTail hTail]
      have hBehind : BareBehind (c :: a) '|' := by
        simpa using hSame.mpr (by simpa using hBare)
      rw [← List.cons_append, parts_append_cut hBehind,
        hFirst a ha, ← parts_append_cut hBare]

/-
  Stages on lines of their own, each behind a pipe sign, are
  cut into the same stages.
-/
theorem parts_joinWith_parts
    (text : Text) :
    parts (Text.joinWith ['\n', '|', ' '] (parts text)) =
      parts text := by
  have hNil : ([] : Text).all Text.isBlank = true := rfl
  have hFeed : ['\n'].all Text.isBlank = true := by decide
  induction text using pipeInduction with
  | whole a ha =>
      have hTrim := Text.trim_of_isTrimmed (Text.isTrimmed_trim a)
      rw [parts_of_isWhole ha, Text.joinWith,
        List.intercalate_singleton,
        parts_of_isWhole (isWhole_trim ha), hTrim]
  | cut a b ha hBare ih =>
      let stage := Text.trim a
      have hStage : stage.IsTrimmed := Text.isTrimmed_trim a
      have hJoin : Text.joinWith ['\n', '|', ' ']
          (stage :: parts b) =
            ([] ++ (stage ++ ['\n'])) ++ '|' :: ' ' ::
              Text.joinWith ['\n', '|', ' '] (parts b) := by
        rw [Text.joinWith, List.intercalate_cons_of_ne_nil
          (parts_ne_nil b)]
        simp [Text.joinWith]
      have hBehind : BareBehind ([] ++ (stage ++ ['\n'])) '|' := by
        rcases Text.trim_split a with
          ⟨lead, tail, hLead, hTail, hText⟩
        rw [hText, bareBehind_around_iff hLead hTail] at hBare
        rw [bareBehind_around_iff hNil hFeed]
        refine ⟨hBare.1, ?_⟩
        -- a line feed uses up an escape, and ends a comment
        unfold Quoting.isEndedBy
        split <;> rfl
      have hWhole : IsWhole (· == '|') ([] ++ (stage ++ ['\n'])) :=
        (isWhole_around hNil hFeed).mpr (isWhole_trim ha)
      have hFirst : parts (a ++ '|' :: b) = stage :: parts b := by
        rw [parts_append_cut hBare, parts_of_isWhole ha]
        rfl
      rw [hFirst, hJoin, parts_append_cut hBehind,
        parts_of_isWhole hWhole, parts_blank (by decide), ih,
        hStage.trim_around hNil hFeed]
      rfl

/- Each part is trimmed, and no pipe sign is bare in it. -/
theorem isTrimmed_and_isWhole_of_mem_parts
    {text part : Text}
    (h : part ∈ parts text) :
    part.IsTrimmed ∧ IsWhole (· == '|') part := by
  induction text using pipeInduction with
  | whole a ha =>
      rw [parts_of_isWhole ha, List.mem_singleton] at h
      rw [h]
      exact ⟨Text.isTrimmed_trim a, isWhole_trim ha⟩
  | cut a b ha hBare ih =>
      rw [parts_append_cut hBare, parts_of_isWhole ha,
        List.singleton_append, List.mem_cons] at h
      rcases h with rfl | h
      · exact ⟨Text.isTrimmed_trim a, isWhole_trim ha⟩
      · exact ih h

/- There is one more run than there are cuts. -/
theorem length_splitOnP
    {α : Type}
    (p : α → Bool)
    (xs : List α) :
    (xs.splitOnP p).length = xs.countP p + 1 := by
  induction xs with
  | nil => rfl
  | cons x xs ih =>
      rw [List.splitOnP_cons_eq_if_modifyHead]
      cases hx : p x with
      | true => simp [hx, ih]
      | false => simp [hx, ih]

/-
  What it means that a text is cut into the stages of a
  pipeline.
-/
structure IsCutInto
    (text : Text)
    (stages : List Text) : Prop where
  length_eq : stages.length =
    (scan text).countP (isBareChar '|') + 1
  two_le : 2 ≤ stages.length
  ne_nil : ∀ stage ∈ stages, stage ≠ []
  trimmed : ∀ stage ∈ stages, Text.trim stage = stage
  whole : ∀ stage ∈ stages, ∀ m ∈ scan stage,
    m.isBareChar '|' = false
  single : ∀ stage ∈ stages, stages? stage = none
  laid : Laid (scan text) stages
  rejoined : stages? (Text.joinWith "\n| " stages) = some stages

/- The parts between the bare pipe signs are laid out as they stand. -/
theorem laid_splitOnP
    (marks : List Mark) :
    Laid marks ((marks.splitOnP (isBareChar '|')).map
      fun run => Text.trim (chars run)) := by
  cases hFind : marks.find? (isBareChar '|') with
  | none =>
      have hNone : ∀ m ∈ marks, m.isBareChar '|' = false := by
        intro m hm
        simpa using List.find?_eq_none.mp hFind m hm
      rcases Text.trim_split (chars marks) with
        ⟨lead, tail, hLead, hTail, hText⟩
      rw [List.splitOnP_eq_singleton hNone]
      exact .last hText hLead hTail
  | some m =>
      rcases List.find?_eq_some_iff_append.mp hFind with
        ⟨hPipe, run, rest, hMarks, hBefore⟩
      have hRun : ∀ k ∈ run, k.isBareChar '|' = false := by
        intro k hk
        simpa using hBefore k hk
      have hShorter : rest.length < marks.length := by
        rw [hMarks, List.length_append, List.length_cons]
        omega
      rcases Text.trim_split (chars run) with
        ⟨lead, tail, hLead, hTail, hText⟩
      rw [hMarks,
        List.splitOnP_append_cons_of_forall_mem hRun m hPipe]
      exact .pipe hText hLead hTail hPipe (laid_splitOnP rest)
  termination_by marks.length

theorem stages?_eq_some_iff
    {text : Text}
    {stages : List Text} :
    stages? text = some stages ↔
      stages = parts text ∧ 2 ≤ stages.length ∧
        ∀ stage ∈ stages, stage ≠ [] := by
  rw [stages?]
  split
  next h =>
    rw [Option.some_inj]
    constructor
    · rintro rfl
      refine ⟨rfl, h.1, fun stage hStage => ?_⟩
      simpa using List.all_eq_true.mp h.2 stage hStage
    · exact fun h => h.1.symm
  next h =>
    refine iff_of_false (by simp) ?_
    rintro ⟨rfl, hLength, hStages⟩
    refine h ⟨hLength, List.all_eq_true.mpr fun stage hStage => ?_⟩
    simpa using hStages stage hStage

/- The stages of a pipeline are what the text is cut into. -/
theorem isCutInto_of_stages?
    {text : Text}
    {stages : List Text}
    (h : stages? text = some stages) :
    IsCutInto text stages := by
  rcases stages?_eq_some_iff.mp h with ⟨hParts, hLength, hNonempty⟩
  have hStage (stage : Text) (hMem : stage ∈ stages) :
      stage.IsTrimmed ∧ IsWhole (· == '|') stage := by
    rw [hParts] at hMem
    exact isTrimmed_and_isWhole_of_mem_parts hMem
  exact
    { length_eq := by
        rw [hParts, parts, List.length_map, length_splitOnP]
      two_le := hLength
      ne_nil := hNonempty
      trimmed := fun stage hMem =>
        Text.trim_of_isTrimmed (hStage stage hMem).1
      whole := fun stage hMem => (hStage stage hMem).2
      single := fun stage hMem => by
        have hOne := parts_of_isWhole (hStage stage hMem).2
        simp [stages?, hOne]
      laid := by
        rw [hParts]
        exact laid_splitOnP (scan text)
      rejoined := by
        rw [stages?_eq_some_iff]
        refine ⟨?_, hLength, hNonempty⟩
        rw [Text.ofString_ofList, hParts, parts_joinWith_parts] }

end Pipeline

/- A statement that does not start as a comment is a pipeline if it has stages. -/
theorem Form.ofText_eq_pipeline_iff
    {text : Text}
    (hText : text.head? ≠ some '#')
    {stages : List Text} :
    ofText text = .pipeline stages ↔
      Pipeline.stages? text = some stages := by
  refine ⟨stages?_of_ofText, fun hStages => ?_⟩
  have hNonempty : text ≠ [] := by
    rintro rfl
    have hNone : Pipeline.stages? [] = none := by decide
    simp [hNone] at hStages
  have hRule : pipeline? text = some (.pipeline stages) := by
    rw [pipeline?, hStages, Option.map_some]
  rw [ofText]
  simp [hNonempty, hText, rules, hRule]

------------------------------------------------------------
-- Arrays of Commands
------------------------------------------------------------

namespace Lexeme

/- What stands between the commas of a list in braces. -/
def elements
    (ls : List Lexeme) : List (List Lexeme) :=
  (ls.tail.takeWhile (· != .sign '\x7d')).splitOn (.sign ',')

/- Only commas are put between the parts of a list. -/
theorem sign_not_mem_listed
    {c : Char}
    (hc : c ≠ ',')
    {parts : List (List Lexeme)}
    (h : ∀ part ∈ parts, .sign c ∉ part) :
    .sign c ∉ listed parts := by
  induction parts with
  | nil => simp [listed]
  | cons part parts ih =>
      rw [List.forall_mem_cons] at h
      by_cases hNil : parts = []
      · rw [hNil, listed, List.intercalate_singleton]
        exact h.1
      · have hRest := ih h.2
        rw [listed] at hRest ⊢
        rw [List.intercalate_cons_of_ne_nil hNil]
        simp [h.1, hc, hRest]

/- The elements of a list whose values hold no commas or braces. -/
theorem elements_listLexemes
    {values : List (List Lexeme)}
    (hNonempty : values ≠ [])
    (hComma : ∀ value ∈ values, .sign ',' ∉ value)
    (hBrace : ∀ value ∈ values, .sign '\x7d' ∉ value) :
    elements (Line.listLexemes values) = values := by
  have hListed : ∀ l ∈ listed values,
      (l != .sign '\x7d') = true := by
    intro l hl
    rw [bne_iff_ne]
    rintro rfl
    exact sign_not_mem_listed (by decide) hBrace hl
  have hInside : (Line.listLexemes values).tail.takeWhile
      (· != .sign '\x7d') = listed values := by
    rw [Line.listLexemes, List.cons_append, List.tail_cons,
      List.takeWhile_append_of_pos hListed]
    simp
  rw [elements, hInside, listed,
    List.splitOn_intercalate _ hComma hNonempty]

end Lexeme

/- Neither commas nor braces stand in what denotes a string. -/
theorem StringExpr.sign_not_mem_lexemes
    (e : StringExpr)
    {c : Char}
    (hc : c ≠ '(' ∧ c ≠ ')') :
    Lexeme.sign c ∉ e.lexemes := by
  cases e <;> simp [lexemes, Lexeme.quoted, Lexeme.call, hc]

/- As C reads it, a list of strings has one element for each. -/
theorem Lexeme.elements_listText
    {es : List StringExpr}
    (hNonempty : es ≠ []) :
    elements (ofText (Line.listText (es.map StringExpr.render))) =
      es.map StringExpr.lexemes := by
  have hReads := Line.readsWhole_listText
    (es.map fun e => (e.render, e.lexemes)) (by
      intro part hPart
      rcases List.mem_map.mp hPart with ⟨e, _, rfl⟩
      exact e.reads_render)
  simp only [List.map_map, Function.comp_def] at hReads
  rw [hReads.ofText_eq]
  apply elements_listLexemes
  · simpa using hNonempty
  · rw [List.forall_mem_map]
    exact fun e _ => e.sign_not_mem_lexemes (by decide)
  · rw [List.forall_mem_map]
    exact fun e _ => e.sign_not_mem_lexemes (by decide)

/- The lines that declare the arrays and run the pipeline. -/
theorem Line.map_render_pipeline
    (es : List StringExpr) :
    [declareStages es, declareStatuses es.length,
      declareResult es.length].map render =
      ["const char *sh_cmds[" ++ Text.ofNat es.length ++ "] = " ++
          listText (es.map StringExpr.render) ++ ";",
       "int sh_statuses[" ++ Text.ofNat es.length ++ "];",
       "int sh_rc = sh_pipeline(sh_cmds, " ++
          Text.ofNat es.length ++ ", sh_statuses);"] := by
  rw [List.map_cons, List.map_cons, List.map_singleton,
    render_declareResult]
  rfl

namespace Event

/-
  The events run the stages in one pipeline.  They report no
  fault.  They declare an array of commands and an array of
  statuses of the size that is handed over with them, and as C
  reads the list of commands, it has as many elements.
-/
structure RunsStages
    (events : List Event)
    (stages : List Text) : Prop where
  faultless : ∀ line fault, .fail line fault ∉ events
  declared : ∃ before commands after,
    (events.filterMap line?).map Line.render =
      before ++
        ["const char *sh_cmds[" ++ Text.ofNat stages.length ++
            "] = " ++ Line.listText commands ++ ";",
         "int sh_statuses[" ++ Text.ofNat stages.length ++ "];",
         "int sh_rc = sh_pipeline(sh_cmds, " ++
            Text.ofNat stages.length ++ ", sh_statuses);"] ++
        after ∧
    commands.length = stages.length ∧
    (Lexeme.elements (Lexeme.ofText
      (Line.listText commands))).length = stages.length

/- What runs a pipeline, with its three middle lines brought out. -/
theorem filterMap_line?_pipeline
    (stages : List Text) :
    let values := stageValues stages
    (pipeline stages).filterMap line? =
      (Line.openScope :: values.flatMap Value.declarations) ++
        [.declareStages (values.map Value.expr),
         .declareStatuses values.length,
         .declareResult values.length] ++
        (Line.setPipelineStatus ::
          values.flatMap Value.releases ++ [.close]) := by
  rw [pipeline, withValuesInScope, inScope, List.cons_append,
    List.filterMap_cons, List.filterMap_append, filterMap_line?_lines]
  simp [line?]

/- A pipeline with a stage is run as a whole. -/
theorem runsStages_pipeline
    {stages : List Text}
    (hNonempty : stages ≠ []) :
    RunsStages (pipeline stages) stages := by
  let es := (stageValues stages).map Value.expr
  have hValues : (stageValues stages).length = es.length := by
    simp [es]
  have hLength : es.length = stages.length := by
    simp [es, stageValues]
  have hEs : es ≠ [] := by
    intro hNil
    rw [hNil, List.length_nil] at hLength
    exact hNonempty (List.length_eq_zero_iff.mp hLength.symm)
  constructor
  · intro line fault hFail
    simp [pipeline, withValuesInScope, inScope, lines] at hFail
  · rw [filterMap_line?_pipeline, hValues, List.map_append,
      List.map_append, Line.map_render_pipeline, hLength]
    refine ⟨_, es.map StringExpr.render, _, rfl, ?_, ?_⟩
    · rw [List.length_map, hLength]
    · rw [Lexeme.elements_listText hEs, List.length_map, hLength]

end Event

------------------------------------------------------------
-- Statements with Stages
------------------------------------------------------------

/-
  A text with stages is cut into them at its bare pipe signs,
  the statements that are not comments are pipelines as soon
  as they have stages, and what is written for a pipeline runs
  as many commands as it declares.
-/
theorem Command.pipelines_run_stages :
    (∀ text stages, Pipeline.stages? text = some stages →
      Pipeline.IsCutInto text stages) ∧
    (∀ text, (ofText text).text.head? ≠ some '#' → ∀ stages,
      ((ofText text).form = .pipeline stages ↔
        Pipeline.stages? (ofText text).text = some stages)) ∧
    (∀ text stages, (ofText text).form = .pipeline stages →
      Pipeline.stages? (ofText text).text = some stages ∧
      ∀ blocks loops line,
        Event.RunsStages ((ofText text).events blocks loops line)
          stages) := by
  refine ⟨fun text stages => Pipeline.isCutInto_of_stages?,
    fun text hText stages => Form.ofText_eq_pipeline_iff hText, ?_⟩
  intro text stages hForm
  have hStages := Form.stages?_of_ofText hForm
  refine ⟨hStages, fun blocks loops line => ?_⟩
  have hNonempty : stages ≠ [] := by
    rintro rfl
    exact absurd (Pipeline.isCutInto_of_stages? hStages).two_le
      (by decide)
  rw [events, hForm]
  exact Event.runsStages_pipeline hNonempty

/-
  A pipe sign behind a blank that is escaped cuts, while those
  in quotes and in a comment do not.
-/
theorem Command.pipelines_run_stages_of_escaped :
    let text : Text := "echo a\\ |tr '|' x #y|z\n| wc"
    let stages : List Text := ["echo a\\", "tr '|' x #y|z", "wc"]
    Pipeline.stages? text = some stages ∧
    Pipeline.IsCutInto text stages ∧
    (ofText text).form = .pipeline stages ∧
    Event.RunsStages ((ofText text).events [] 0 1) stages := by
  intro text stages
  rcases pipelines_run_stages with ⟨hCut, hForms, hRuns⟩
  have hStages : Pipeline.stages? text = some stages := by
    simp only [text, stages]
    repeat rw [Text.ofString_ofList]
    decide +kernel
  have hText : (ofText text).text = text := by
    simp only [text]
    repeat rw [Text.ofString_ofList]
    decide +kernel
  have hHead : (ofText text).text.head? ≠ some '#' := by
    rw [hText]
    simp only [text]
    rw [Text.ofString_ofList]
    decide
  have hForm : (ofText text).form = .pipeline stages := by
    rw [hForms text hHead, hText, hStages]
  exact ⟨hStages, hCut text stages hStages, hForm,
    (hRuns text stages hForm).2 [] 0 1⟩

end ShellToC
