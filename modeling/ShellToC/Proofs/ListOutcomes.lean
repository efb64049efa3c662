import ShellToC.Proofs.HandedOver
import ShellToC.Proofs.ListOperators

/-
  This file defines what can become of a command list: it is
  reported, or handed over to the command interpreter, or it
  is overlooked.

  Key definitions include:
    * `Event.isSilent`
    * `Event.HandsOverList`
    * `Event.Settles`

  Main declarations:
    * `Event.Settles.around`
    * `Event.Settles.iff`
    * `Pipeline.Lists.handsOverList`
-/

namespace ShellToC

open Lexeme

------------------------------------------------------------
-- Outcomes
------------------------------------------------------------

namespace Event

/-
  Whether the event neither reports a fault nor writes a text
  that hands a command over.
-/
def isSilent : Event → Bool
  | .fail _ _ => false
  | .write _ line => !handsOver (ofText line.render)
  | _ => true

/- What may stand behind the command of a statement. -/
def closings : List Text :=
  [[], ['&'], [')'], [')', '\x22'], ['\x60'], ['\x60', '\x22']]

/-
  The events hand over a command in which the operator stands
  with what follows it, but for what ends the statement.  If
  the statement is a pipeline, the stages behind go with it.
  The interpreter gets the operator, and behind it what the
  rest of the command denotes.
-/
def HandsOverList
    (events : List Event)
    (text : Text)
    (op : Char)
    (rest : Text) : Prop :=
  ∃ commands a b, HandsOver events commands ∧
    a ++ op :: op :: b ∈ commands ∧
    (∃ lead quote,
      Reference.atoms .leave
          (Template.prepare (a ++ op :: op :: b)) =
        lead ++ .char op :: .char op ::
          Reference.atoms .leave
            (Template.prepareFrom quote b)) ∧
    ((commands = [a ++ op :: op :: b] ∧
        ∃ blanks, ∃ closing ∈ closings, ∃ tail,
          rest = b ++ (blanks ++ (closing ++ tail)) ∧
            blanks.all Text.isBlank = true ∧
            tail.all (fun c => Text.isBlank c || c == ';') = true) ∨
      Pipeline.stages? text = some commands ∧ b <+: rest)

/-
  What becomes of a list: it is reported or handed over,
  unless it is overlooked.
-/
def Settles
    (overlooks : Bool)
    (line : Nat)
    (events : List Event)
    (text : Text)
    (op : Char)
    (rest : Text) : Prop :=
  if overlooks then
    events.all isSilent = true
  else
    (∃ fault, .fail line fault ∈ events) ∨
      HandsOverList events text op rest

variable {overlooks : Bool}
variable {line : Nat}
variable {events : List Event}
variable {text rest : Text}
variable {op : Char}

theorem HandsOverList.not_isSilent
    (h : HandsOverList events text op rest) :
    events.all isSilent = false := by
  rcases h with ⟨commands, a, b, hHands, -⟩
  rcases hHands.exists_write with ⟨extra, written, hMem, hWrite⟩
  rw [List.all_eq_false]
  exact ⟨_, hMem, by simp [isSilent, hWrite]⟩

/- What is written besides makes no difference. -/
theorem HandsOverList.sublist
    {more : List Event}
    (h : HandsOverList events text op rest)
    (hMore : events.Sublist more) :
    HandsOverList more text op rest := by
  rcases h with ⟨commands, a, b, hHands, hRest⟩
  exact ⟨commands, a, b, hHands.sublist hMore, hRest⟩

/- Nor does what trimming takes away from the statement. -/
theorem HandsOverList.append
    {tail : Text}
    (h : HandsOverList events text op rest)
    (hTail : tail.all
      (fun c => Text.isBlank c || c == ';') = true) :
    HandsOverList events text op (rest ++ tail) := by
  rcases h with ⟨commands, a, b, hHands, hMem, hDenotes,
    ⟨hOne, blanks, closing, hClosing, last, hRest, hBlanks,
      hLast⟩ | ⟨hStages, hPrefix⟩⟩
  · refine ⟨commands, a, b, hHands, hMem, hDenotes, Or.inl
      ⟨hOne, blanks, closing, hClosing, last ++ tail, ?_,
        hBlanks, ?_⟩⟩
    · simp [hRest]
    · rw [List.all_append, hLast, hTail, Bool.and_self]
  · exact ⟨commands, a, b, hHands, hMem, hDenotes, Or.inr
      ⟨hStages, hPrefix.trans (List.prefix_append rest tail)⟩⟩

theorem Settles.of_fail
    {fault : Fault}
    (hOverlooks : overlooks = false)
    (h : .fail line fault ∈ events) :
    Settles overlooks line events text op rest := by
  rw [Settles, hOverlooks]
  exact Or.inl ⟨fault, h⟩

theorem Settles.of_isSilent
    (hOverlooks : overlooks = true)
    (h : events.all isSilent = true) :
    Settles overlooks line events text op rest := by
  rw [Settles, hOverlooks]
  exact h

/- Silent events around others leave their outcome as it is. -/
theorem Settles.around
    (h : Settles overlooks line events text op rest)
    (before after : List Event)
    (hBefore : before.all isSilent = true)
    (hAfter : after.all isSilent = true) :
    Settles overlooks line (before ++ events ++ after) text op
      rest := by
  cases overlooks with
  | true =>
      have hEvents : events.all isSilent = true := h
      refine of_isSilent rfl ?_
      simp only [List.all_append, hBefore, hEvents, hAfter,
        Bool.and_self]
  | false =>
      rcases h with ⟨fault, hFail⟩ | hHands
      · exact of_fail rfl (List.mem_append_left _
          (List.mem_append_right _ hFail))
      · exact Or.inr (hHands.sublist
          ((List.sublist_append_right before events).trans
            (List.sublist_append_left _ after)))

theorem Settles.append
    {tail : Text}
    (h : Settles overlooks line events text op rest)
    (hTail : tail.all
      (fun c => Text.isBlank c || c == ';') = true) :
    Settles overlooks line events text op (rest ++ tail) := by
  cases overlooks with
  | true => exact h
  | false =>
      rcases h with hFail | hHands
      · exact Or.inl hFail
      · exact Or.inr (hHands.append hTail)

/- A list is taken care of if and only if it is not overlooked. -/
theorem Settles.iff
    (h : Settles overlooks line events text op rest) :
    ((∃ fault, .fail line fault ∈ events) ∨
      HandsOverList events text op rest) ↔ overlooks = false := by
  cases overlooks with
  | false => exact iff_of_true h rfl
  | true =>
      have hEvents : events.all isSilent = true := h
      refine iff_of_false ?_ Bool.noConfusion
      rintro (⟨fault, hFail⟩ | hHands)
      · exact Bool.noConfusion (List.all_eq_true.mp hEvents _ hFail)
      · rw [hHands.not_isSilent] at hEvents
        contradiction

end Event

------------------------------------------------------------
-- Silent Events
------------------------------------------------------------

@[simp] theorem StringExpr.any_takesCommand_needs
    (e : StringExpr) :
    e.needs.any Helper.takesCommand = false := by
  cases e <;> rfl

@[simp] theorem IntExpr.any_takesCommand_needs
    (e : IntExpr) :
    e.needs.any Helper.takesCommand = false := by
  cases e with
  | ofString e =>
      rw [needs, List.any_append, e.any_takesCommand_needs]
      rfl
  | _ => rfl

@[simp] theorem BoolExpr.any_takesCommand_needs
    (e : BoolExpr) :
    e.needs.any Helper.takesCommand = false := by
  induction e with
  | testPath test path =>
      rw [needs, List.any_append, path.any_takesCommand_needs]
      cases test <;> rfl
  | compareStrings rel left right =>
      rw [needs, List.any_append, left.any_takesCommand_needs,
        right.any_takesCommand_needs]
      rfl
  | compareInts rel left right =>
      rw [needs, List.any_append, left.any_takesCommand_needs,
        right.any_takesCommand_needs]
      rfl
  | not e ih => exact ih
  | _ => rfl

@[simp] theorem FormatCall.any_takesCommand_buildNeeds
    (call : FormatCall) :
    call.buildNeeds.any Helper.takesCommand = false := by
  have hArg (arg : FormatArg) :
      arg.needs.any Helper.takesCommand = false := by
    cases arg with
    | string e => exact e.any_takesCommand_needs
    | _ => rfl
  simp [buildNeeds, argNeeds, List.any_flatMap, hArg,
    Helper.takesCommand]

/-
  Whether the line asks no helper to take a command.  Lines
  whose text may hold anything are left out.
-/
def Line.keepsCommands : Line → Bool
  | .marker _ _ _ => false
  | .verbatim _ => false
  | .assignInt _ _ => false
  | .printInt _ => false
  | line => !line.needs.any Helper.takesCommand

/- The text of such a line hands nothing over. -/
theorem Line.not_handsOver_render
    {line : Line}
    (h : line.keepsCommands = true) :
    handsOver (ofText line.render) = false := by
  have hLegible : line.IsLegible ∧
      line.needs.any Helper.takesCommand = false := by
    cases line with
    | marker file line message => cases h
    | verbatim text => cases h
    | assignInt name value => cases h
    | printInt value => cases h
    | _ => exact ⟨trivial, (Bool.not_eq_true' _).mp h⟩
  rw [handsOver_render hLegible.1, hLegible.2]

namespace Event

/- Whether an event that reports no fault keeps its commands. -/
def keepsCommands : Event → Bool
  | .fail _ _ => false
  | .write _ line => line.keepsCommands
  | _ => true

theorem all_isSilent
    {events : List Event}
    (h : events.all keepsCommands = true) :
    events.all isSilent = true := by
  rw [List.all_eq_true] at h ⊢
  intro event hEvent
  have hKeeps := h event hEvent
  cases event with
  | write extra line =>
      rw [isSilent, Line.not_handsOver_render hKeeps]
      rfl
  | fail line fault => cases hKeeps
  | _ => rfl

/- Building values and freeing them hands nothing over. -/
theorem isSilent_withValues
    (values : List Value)
    {body : List Line}
    (h : body.all Line.keepsCommands = true) :
    (withValues values body).all isSilent = true := by
  have hLines (extra : Nat) (ls : List Line) :
      (lines extra ls).all keepsCommands =
        ls.all Line.keepsCommands := by
    simp [lines, List.all_map, Function.comp_def, keepsCommands]
  apply all_isSilent
  rw [withValues]
  split
  · rw [hLines, h]
  · have hDeclared : (values.flatMap Value.declarations).all
        Line.keepsCommands = true := by
      rw [List.all_flatMap, List.all_eq_true]
      intro value _
      cases value with
      | borrowed e => rfl
      | built temp call =>
          simp [Value.declarations, Line.keepsCommands, Line.needs]
    have hFreed : (values.flatMap Value.releases).all
        Line.keepsCommands = true := by
      rw [List.all_flatMap, List.all_eq_true]
      intro value _
      cases value <;> rfl
    rw [inScope, List.all_append, List.all_cons, hLines,
      List.all_append, List.all_append, hDeclared, h, hFreed]
    rfl

theorem isSilent_assign
    (name word : Text) :
    (assign name word).all isSilent = true := by
  rw [assign, List.all_append, isSilent_withValues _
    (by simp [Line.keepsCommands, Line.needs])]
  exact all_isSilent rfl

/- The items of a loop are declared and hand nothing over. -/
theorem isSilent_openFor
    (line loops : Nat)
    (var : Text)
    (items : Option Text) :
    (openFor line loops var items).all isSilent = true := by
  apply all_isSilent
  unfold openFor
  split
  · rfl
  · simp only [openForItems, declareItems]
    split
    · rfl
    · simp [keepsCommands, Line.keepsCommands, Line.needs]

end Event

------------------------------------------------------------
-- Commands with a List
------------------------------------------------------------

namespace Pipeline

variable {text before rest : Text}
variable {op : Char}

theorem Lists.isKept
    (h : Lists text before op rest) :
    Template.isKept op = true := by
  rcases h.op_eq with rfl | rfl <;> decide

/- A command that has the operator in it is handed over with it. -/
theorem Lists.handsOverList
    (h : Lists text before op rest)
    {events : List Event}
    {whole a b : Text}
    (blanks closing : Text)
    (hHands : Event.HandsOver events [a ++ op :: op :: b])
    (hRest : rest = b ++ (blanks ++ closing))
    (hBlanks : blanks.all Text.isBlank = true)
    (hClosing : closing ∈ Event.closings) :
    Event.HandsOverList events whole op rest :=
  ⟨[a ++ op :: op :: b], a, b, hHands,
    List.mem_singleton_self _,
    Template.exists_atoms_prepare h.isKept a b,
    Or.inl ⟨rfl, blanks, closing, hClosing, [],
      by rw [List.append_nil, hRest], hBlanks, rfl⟩⟩

/- A command that is run goes with all that follows the operator. -/
theorem Lists.handsOverList_run
    (h : Lists text before op rest)
    (whole a : Text) :
    Event.HandsOverList (Event.run (a ++ op :: op :: rest)) whole
      op rest :=
  h.handsOverList [] [] (Event.handsOver_run _)
    (List.append_nil rest).symm rfl (by decide)

end Pipeline

end ShellToC
