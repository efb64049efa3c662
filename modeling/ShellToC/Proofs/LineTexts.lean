import ShellToC.Code.Line

/-
  This file spells out the texts of lines: what stands in a
  program for each of them, with nothing abbreviated.

  The lines that are left out here are defined by such a text
  already.
-/

namespace ShellToC

theorem StringExpr.render_variable
    (name : Text) :
    (StringExpr.variable name).render =
      "sh_var(" ++ Literal.quote name ++ ")" := by
  dsimp only [render, callText, Helper.name]
  repeat rw [Text.ofString_ofList]
  simp

/- A copy is made with a format of its own. -/
theorem FormatCall.renderBuild_copy
    (text : Text) :
    (copy text).renderBuild =
      "sh_format(\x22%s\x22, " ++ Literal.quote text ++ ")" := by
  have hFormat : Literal.quote "%s" =
      Text.ofString "\x22%s\x22" := by
    rw [Text.ofString_ofList, Text.ofString_ofList]
    rfl
  rw [renderBuild, render, copy, hFormat]
  simp [FormatArg.render, StringExpr.render, callText,
    Text.joinWith, List.intercalate, List.intersperse,
    Helper.name, Text.ofString_eq]

namespace Line

@[simp] theorem render_verbatim
    (text : Text) :
    (verbatim text).render = text := rfl

------------------------------------------------------------
-- Blocks
------------------------------------------------------------

/- The status is tested for success before a branch. -/
theorem render_openOnSuccess :
    openOnSuccess.render = "if (last_status == 0) \x7b" := by
  dsimp only [render, statusVariable]
  repeat rw [Text.ofString_ofList]
  simp

/- The status is tested for failure before a loop is left. -/
theorem render_openOnFailure :
    openOnFailure.render = "if (last_status != 0) \x7b" := by
  dsimp only [render, statusVariable]
  repeat rw [Text.ofString_ofList]
  simp

theorem render_openItems
    (loop count : Nat) :
    (openItems loop count).render =
      "for (size_t sh_i_" ++ Text.ofNat loop ++ " = 0; sh_i_" ++
        Text.ofNat loop ++ " < " ++ Text.ofNat count ++
        "; sh_i_" ++ Text.ofNat loop ++ "++) \x7b" := by
  dsimp only [render, indexName]
  repeat rw [Text.ofString_ofList]
  simp

------------------------------------------------------------
-- Statuses
------------------------------------------------------------

theorem render_succeed :
    succeed.render = "last_status = 0;" := by
  dsimp only [render, statusText, statusVariable]
  repeat rw [Text.ofString_ofList]
  simp

theorem render_failed :
    failed.render = "last_status = 1;" := by
  dsimp only [render, statusText, statusVariable]
  repeat rw [Text.ofString_ofList]
  simp

theorem render_setStatus
    (e : BoolExpr) :
    (setStatus e).render =
      "last_status = (" ++ e.render ++ ") ? 0 : 1;" := by
  dsimp only [render, statusText, statusVariable]
  repeat rw [Text.ofString_ofList]
  simp

theorem render_invertStatus :
    invertStatus.render =
      "last_status = last_status == 0 ? 1 : 0;" := by
  dsimp only [render, statusText, statusVariable]
  repeat rw [Text.ofString_ofList]
  simp

theorem render_setJobStatus :
    setJobStatus.render =
      "last_status = last_bg_pid < 0 ? 127 : 0;" := by
  dsimp only [render, statusText, statusVariable, jobVariable]
  repeat rw [Text.ofString_ofList]
  simp

theorem render_setPipelineStatus :
    setPipelineStatus.render =
      "last_status = sh_rc < 0 ? 127 : sh_rc;" := by
  dsimp only [render, statusText, statusVariable]
  repeat rw [Text.ofString_ofList]
  simp

------------------------------------------------------------
-- Commands
------------------------------------------------------------

theorem render_run
    (e : StringExpr) :
    (run e).render =
      "last_status = sh_run(" ++ e.render ++ ");" := by
  dsimp only [render, statusText, statusVariable, callText,
    Helper.name]
  repeat rw [Text.ofString_ofList]
  simp

theorem render_declareOutput
    (e : StringExpr) :
    (declareOutput e).render =
      "char *sh_out = sh_capture(" ++ e.render ++ ");" := by
  dsimp only [render, callText, Helper.name, Temporary.name]
  repeat rw [Text.ofString_ofList]
  simp

theorem render_startJob
    (e : StringExpr) :
    (startJob e).render =
      "last_bg_pid = sh_background(" ++ e.render ++ ");" := by
  dsimp only [render, jobVariable, callText, Helper.name]
  repeat rw [Text.ofString_ofList]
  simp

theorem render_changeDir
    (e : StringExpr) :
    (changeDir e).render =
      "last_status = chdir(" ++ e.render ++
        ") == 0 ? 0 : 1;" := by
  dsimp only [render, statusText, statusVariable, callText]
  repeat rw [Text.ofString_ofList]
  simp

/- The stages of a pipeline are the elements of an array. -/
theorem render_declareStages
    (es : List StringExpr) :
    (declareStages es).render =
      "const char *sh_cmds[" ++ Text.ofNat es.length ++
        "] = \x7b " ++
        Text.joinWith ", " (es.map StringExpr.render) ++
        " \x7d;" := by
  dsimp only [render, listText]
  repeat rw [Text.ofString_ofList]
  simp

theorem render_declareResult
    (count : Nat) :
    (declareResult count).render =
      "int sh_rc = sh_pipeline(sh_cmds, " ++ Text.ofNat count ++
        ", sh_statuses);" := by
  dsimp only [render, callText, Helper.name]
  repeat rw [Text.ofString_ofList]
  simp

------------------------------------------------------------
-- Variables
------------------------------------------------------------

theorem render_assign
    (name : Text)
    (e : StringExpr) :
    (assign name e).render =
      "setenv(" ++ Literal.quote name ++ ", " ++ e.render ++
        ", 1);" := by
  dsimp only [render, assignText, callText]
  repeat rw [Text.ofString_ofList]
  simp

theorem render_assignItem
    (name : Text)
    (loop : Nat) :
    (assignItem name loop).render =
      "setenv(" ++ Literal.quote name ++ ", sh_items_" ++
        Text.ofNat loop ++ "[sh_i_" ++ Text.ofNat loop ++
        "], 1);" := by
  dsimp only [render, assignText, callText, itemsName, indexName]
  repeat rw [Text.ofString_ofList]
  simp

theorem render_assignInt
    (name : Text)
    (e : ArithExpr) :
    (assignInt name e).render =
      "sh_set_int(" ++ Literal.quote name ++ ", " ++ e.render ++
        ");" := by
  dsimp only [render, callText, Helper.name]
  repeat rw [Text.ofString_ofList]
  simp

theorem render_declareItems
    (loop : Nat)
    (items : List Text) :
    (declareItems loop items).render =
      "static const char *const sh_items_" ++ Text.ofNat loop ++
        "[] = \x7b " ++
        Text.joinWith ", " (items.map Literal.quote) ++
        " \x7d;" := by
  dsimp only [render, itemsName, listText]
  repeat rw [Text.ofString_ofList]
  simp

theorem render_declareBuiltItems
    (loop : Nat)
    (items : List FormatCall) :
    (declareBuiltItems loop items).render =
      "char *sh_items_" ++ Text.ofNat loop ++ "[] = \x7b " ++
        Text.joinWith ", " (items.map FormatCall.renderBuild) ++
        " \x7d;" := by
  dsimp only [render, itemsName, listText]
  repeat rw [Text.ofString_ofList]
  simp

theorem render_free
    (temp : Temporary) :
    (free temp).render = "free(" ++ temp.name ++ ");" := by
  dsimp only [render, callText]
  repeat rw [Text.ofString_ofList]
  simp

theorem render_freeItem
    (loop index : Nat) :
    (freeItem loop index).render =
      "free(sh_items_" ++ Text.ofNat loop ++ "[" ++
        Text.ofNat index ++ "]);" := by
  dsimp only [render, callText, itemsName]
  repeat rw [Text.ofString_ofList]
  simp

------------------------------------------------------------
-- Printing
------------------------------------------------------------

theorem render_printLine
    (text : Text) :
    (printLine text).render =
      "puts(" ++ Literal.quote text ++ ");" := by
  dsimp only [render, callText]
  repeat rw [Text.ofString_ofList]
  simp

theorem render_printText
    (text : Text) :
    (printText text).render =
      "fputs(" ++ Literal.quote text ++ ", stdout);" := by
  dsimp only [render, callText]
  repeat rw [Text.ofString_ofList]
  simp

theorem render_printInt
    (e : ArithExpr) :
    (printInt e).render =
      "printf(\x22%ld\x5cn\x22, (long)" ++ e.render ++ ");" := by
  have hFormat : Literal.quote "%ld\n" =
      Text.ofString "\x22%ld\x5cn\x22" := by
    rw [Text.ofString_ofList, Text.ofString_ofList]
    rfl
  rw [render, hFormat]
  simp [callText, Text.ofString_eq]

end Line

end ShellToC
