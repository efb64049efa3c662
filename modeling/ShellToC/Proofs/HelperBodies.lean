import ShellToC.Code.HelperText
import ShellToC.Proofs.HelperCalls
import ShellToC.Proofs.Outline

/-
  This file reads the text of the helpers themselves.

  The declaration and the definition of a helper make up one
  function of its name.  The body calls the helpers that are
  listed for it, and neither text names any others.

  Key definitions include:
    * `Layout.lexemes`
    * `Layout.isWhole`

  Main declarations:
    * `Helper.readsWhole_declaration`
    * `Helper.makeUp_declaration`
    * `Helper.readsWhole_definition`
    * `Helper.makeUp_definition`
    * `Helper.uses_body`
-/

namespace ShellToC

open Lexeme

------------------------------------------------------------
-- Lines of Text
------------------------------------------------------------

namespace Layout

/- The lexemes of lines. -/
def lexemes
    (lines : List String) : List Lexeme :=
  lines.flatMap fun line => ofText line.toList

/- Whether no line leaves a literal or a comment open. -/
def isWhole
    (lines : List String) : Bool :=
  lines.all fun line =>
    (Lexer.idle.after line.toList).isEdge

theorem lexemes_nil : lexemes [] = [] := rfl

theorem lexemes_cons
    (line : String)
    (lines : List String) :
    lexemes (line :: lines) =
      ofText line.toList ++ lexemes lines := rfl

theorem lexemes_append
    (a b : List String) :
    lexemes (a ++ b) = lexemes a ++ lexemes b :=
  List.flatMap_append

theorem isWhole_nil : isWhole [] = true := rfl

theorem isWhole_cons
    (line : String)
    (lines : List String) :
    isWhole (line :: lines) =
      ((Lexer.idle.after line.toList).isEdge &&
        isWhole lines) := rfl

theorem isWhole_append
    (a b : List String) :
    isWhole (a ++ b) = (isWhole a && isWhole b) :=
  List.all_append

/- The indentation of a line makes no difference. -/
theorem ofText_indent
    (line : String) :
    ofText ("    " ++ line).toList = ofText line.toList ∧
      Lexer.idle.after ("    " ++ line).toList =
        Lexer.idle.after line.toList := by
  rw [String.toList_append]
  constructor
  · have hBlank : ReadsWhole "    ".toList [] :=
      readsWhole_of_isAllBlank (by decide +kernel)
    exact hBlank line.toList
  · have hBlank :
        Lexer.idle.after "    ".toList = .idle := by
      decide +kernel
    rw [Lexer.after, List.foldl_append]
    rw [Lexer.after] at hBlank
    rw [hBlank]
    rfl

theorem lexemes_indented
    (lines : List String) :
    lexemes (indented lines) = lexemes lines := by
  induction lines with
  | nil => rfl
  | cons line lines ih =>
      have hLine : lexemes (indented (line :: lines)) =
          ofText (if line.isEmpty then line
            else "    " ++ line).toList ++
              lexemes (indented lines) := rfl
      rw [hLine, ih, lexemes_cons]
      split
      · rfl
      · rw [(ofText_indent line).1]

theorem isWhole_indented
    (lines : List String) :
    isWhole (indented lines) = isWhole lines := by
  induction lines with
  | nil => rfl
  | cons line lines ih =>
      have hLine : isWhole (indented (line :: lines)) =
          ((Lexer.idle.after (if line.isEmpty then line
            else "    " ++ line).toList).isEdge &&
              isWhole (indented lines)) := rfl
      rw [hLine, ih, isWhole_cons]
      split
      · rfl
      · rw [(ofText_indent line).2]

theorem lexemes_block
    (head : String)
    (body : List String) :
    lexemes (block head body) =
      ofText (head.toList ++ " \x7b".toList) ++
        lexemes body ++ ofText "\x7d".toList := by
  simp [block, lexemes_append, lexemes_indented,
    lexemes_cons, lexemes_nil]

theorem isWhole_block
    (head : String)
    (body : List String) :
    isWhole (block head body) =
      ((Lexer.idle.after
          (head.toList ++ " \x7b".toList)).isEdge &&
        isWhole body &&
        (Lexer.idle.after "\x7d".toList).isEdge) := by
  simp [block, isWhole_append, isWhole_indented,
    isWhole_cons, isWhole_nil, Bool.and_assoc]

/- Whole lines are read one after the other. -/
theorem readsWhole_text
    {lines : List String}
    (h : isWhole lines = true) :
    ReadsWhole (text lines) (lexemes lines) := by
  induction lines with
  | nil => exact readsWhole_nil
  | cons line lines ih =>
      rw [isWhole_cons, Bool.and_eq_true] at h
      have hFeed : ReadsWhole ['\n'] [] :=
        readsWhole_of_isAllBlank (by decide)
      have hLine := (reads_ofText h.1).append_readsWhole
        hFeed (by decide)
      rw [List.append_nil] at hLine
      exact hLine.append (ih h.2)

end Layout

------------------------------------------------------------
-- Helpers
------------------------------------------------------------

namespace Helper

open Layout

/-
  The lines of a helper are whole, their braces are
  balanced, and the helpers that they name are those that it
  calls.
-/
theorem body_facts
    (helper : Helper) :
    isWhole helper.body = true ∧
    (unclosed (lexemes helper.body) = 0 ∧
      StaysAbove 0 (lexemes helper.body)) ∧
    (lexemes helper.body).filterMap helper? = helper.calls ∧
    (Lexeme.calls (lexemes helper.body)).filterMap
      (helper? ∘ word) = helper.calls := by
  cases helper
  all_goals
    simp only [body, varBody, intBody, setIntBody,
      formatBody, waitStatusBody, runBody, captureBody,
      pipelineBody, backgroundBody, pathExistsBody,
      isFileBody, isDirBody, lexemes_indented,
      isWhole_indented, lexemes_append, isWhole_append,
      lexemes_block, isWhole_block, lexemes_cons,
      isWhole_cons, lexemes_nil, isWhole_nil]
  all_goals repeat rw [String.toList_ofList]
  all_goals decide +kernel

theorem ofText_body
    (helper : Helper) :
    ofText (text helper.body) = lexemes helper.body :=
  (readsWhole_text helper.body_facts.1).ofText_eq

/- A helper calls the helpers that are listed for it. -/
theorem uses_body
    (helper : Helper) :
    Uses (ofText (text helper.body)) helper.calls := by
  rw [helper.ofText_body]
  exact uses_of_filterMap helper.body_facts.2.2.1
    helper.body_facts.2.2.2

/- The lexemes of the head of a helper. -/
def headLexemes
    (helper : Helper) : List Lexeme :=
  ofText helper.head.toList

/-
  The head of a helper is the start of a function of its
  name, and names no other helper.
-/
theorem head_facts
    (helper : Helper) :
    (Lexer.idle.after helper.head.toList).isEdge = true ∧
    (Outline.outside []).functions helper.headLexemes = [] ∧
    (Outline.outside []).after helper.headLexemes =
      .outside helper.headLexemes ∧
    Lexeme.calls helper.headLexemes = [helper.name] ∧
    helper.headLexemes.filterMap helper? = [helper] := by
  cases helper
  all_goals simp only [headLexemes, head, name]
  all_goals
    rw [String.toList_ofList, Text.ofString_ofList]
    decide +kernel

theorem leads_head
    (helper : Helper) :
    (Outline.outside []).Leads helper.headLexemes []
      (.outside helper.headLexemes) :=
  ⟨helper.head_facts.2.1, helper.head_facts.2.2.1⟩

theorem reads_head
    (helper : Helper) :
    Reads helper.head.toList helper.headLexemes :=
  reads_ofText helper.head_facts.1

/- The head of a helper names the helper itself. -/
theorem eq_of_mem_headLexemes
    {helper other : Helper}
    (h : .word other.name ∈ helper.headLexemes) :
    other = helper := by
  have hMem := mem_filterMap_helper? h
  rw [helper.head_facts.2.2.2.2] at hMem
  exact List.mem_singleton.mp hMem

------------------------------------------------------------
-- Declarations and Definitions
------------------------------------------------------------

/- The lexemes of a declaration. -/
def declarationLexemes
    (helper : Helper) : List Lexeme :=
  helper.headLexemes ++ [.sign ';']

/- The lexemes of a definition. -/
def definitionLexemes
    (helper : Helper) : List Lexeme :=
  helper.headLexemes ++ [.sign '\x7b'] ++
    ofText (text helper.body) ++ [.sign '\x7d']

theorem readsWhole_declaration
    (helper : Helper) :
    ReadsWhole helper.declaration
      helper.declarationLexemes := by
  have hEnd : ReadsWhole (Text.ofString ";") [.sign ';'] :=
    readsWhole_fixed (by decide +kernel)
  have hAll := helper.reads_head.append_readsWhole hEnd
    (by decide +kernel)
  rw [declaration, Text.ofString_eq helper.head]
  exact hAll

theorem readsWhole_definition
    (helper : Helper) :
    ReadsWhole helper.definition
      helper.definitionLexemes := by
  have hOpen :
      ReadsWhole ("\n\x7b\n".toList) [.sign '\x7b'] :=
    readsWhole_fixed (by decide +kernel)
  have hClose :
      ReadsWhole ("\x7d\n".toList) [.sign '\x7d'] :=
    readsWhole_fixed (by decide +kernel)
  have hHead := helper.reads_head.append_readsWhole hOpen
    (by decide +kernel)
  have hAll := (hHead.append
    (readsWhole_text helper.body_facts.1)).append hClose
  rw [definitionLexemes, helper.ofText_body]
  simpa [definition, braced, text] using hAll

/- A declaration makes up a function without a body. -/
theorem makeUp_declaration
    (helper : Helper) :
    CFunction.MakeUp helper.declarationLexemes
      [⟨helper.name, none⟩] := by
  have hEnd : (Outline.outside helper.headLexemes).Leads
      [.sign ';'] [⟨helper.name, none⟩] (.outside []) :=
    Outline.leads_single (by
      simp [Outline.step, Outline.functionOf,
        helper.head_facts.2.2.2.1])
  exact helper.leads_head.append hEnd

/- A definition makes up a function with the body of the helper. -/
theorem makeUp_definition
    (helper : Helper) :
    CFunction.MakeUp helper.definitionLexemes
      [⟨helper.name, some (ofText (text helper.body))⟩] := by
  rw [definitionLexemes, helper.ofText_body]
  exact CFunction.makeUp_definition helper.leads_head
    (by rw [helper.head_facts.2.2.2.1]; rfl)
    helper.body_facts.2.1

/- A declaration names the helper itself. -/
theorem eq_of_mem_declarationLexemes
    {helper other : Helper}
    (h : .word other.name ∈ helper.declarationLexemes) :
    other = helper := by
  simp only [declarationLexemes, List.mem_append,
    List.mem_singleton, reduceCtorEq, or_false] at h
  exact eq_of_mem_headLexemes h

/- A definition names the helper itself and those that it calls. -/
theorem mem_required_of_mem_definitionLexemes
    {helper other : Helper}
    (h : .word other.name ∈ helper.definitionLexemes) :
    other ∈ helper.required := by
  simp only [definitionLexemes, List.mem_append,
    List.mem_singleton, reduceCtorEq, or_false] at h
  rcases h with h | h
  · rw [eq_of_mem_headLexemes h]
    exact List.mem_cons_self
  · exact List.mem_cons_of_mem _
      (helper.uses_body.named other h)

end Helper

end ShellToC
