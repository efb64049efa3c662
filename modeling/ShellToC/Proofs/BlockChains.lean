import ShellToC.Proofs.FaultReports
import ShellToC.Proofs.TreeWriting

/-
  This file shows how the conditions of a conditional lie
  among the open blocks.

  A further condition lies right above the `else` branch in
  which it was opened, whatever is opened and closed after
  it.  So going down from a condition, there is always a
  conditional that is not chained, and one keyword closes
  the blocks down to that conditional and no others.

  Key definitions include:
    * `Frame.IsRegular`
    * `Frame.AreChained`
    * `Frame.Change`

  Main declarations:
    * `Command.change_events`
    * `Frame.Change.areChained`
    * `Draft.areChained_addCommands`
    * `Draft.chains_closed_whole`
-/

namespace ShellToC

------------------------------------------------------------
-- Chains
------------------------------------------------------------

namespace Frame

/-
  A conditional has no epilogue, and its keyword says
  whether it is chained.
-/
structure IsRegular
    (frame : Frame) : Prop where
  epilogue : frame.kind = .conditional → frame.epilogue = []
  opener : frame.kind = .conditional →
    frame.opener = if frame.chained then "elif" else "if"

theorem isRegular_of_loop
    {frame : Frame}
    (h : frame.kind = .loop) :
    frame.IsRegular :=
  ⟨by simp [h], by simp [h]⟩

/- The block is a conditional in its `else` branch. -/
def IsElse
    (frame : Frame) : Prop :=
  frame.kind = .conditional ∧ frame.inElse = true

/-
  Every block is regular, and a chained one is a conditional
  right above the `else` branch of a conditional.
-/
def AreChained : List Frame → Prop
  | [] => True
  | frame :: rest =>
      frame.IsRegular ∧
      (frame.chained = true →
        frame.kind = .conditional ∧
          ∃ outer, rest.head? = some outer ∧ outer.IsElse) ∧
      AreChained rest

/- The blocks around a number of others are chained like all of them. -/
theorem AreChained.of_append
    {inner around : List Frame}
    (h : AreChained (inner ++ around)) :
    AreChained around := by
  induction inner with
  | nil => exact h
  | cons frame inner ih => exact ih h.2.2

theorem AreChained.isRegular
    {blocks : List Frame}
    (h : AreChained blocks) :
    ∀ frame ∈ blocks, frame.IsRegular := by
  intro frame hFrame
  rcases List.append_of_mem hFrame with ⟨inner, around, rfl⟩
  exact h.of_append.1

/- A chained block lies above an `else` branch, wherever it is. -/
theorem AreChained.outer
    {blocks : List Frame}
    (h : AreChained blocks)
    {index : Nat}
    {frame : Frame}
    (hFrame : blocks[index]? = some frame)
    (hChained : frame.chained = true) :
    frame.kind = .conditional ∧
      ∃ outer, blocks[index + 1]? = some outer ∧
        outer.IsElse := by
  induction blocks generalizing index with
  | nil => cases hFrame
  | cons first rest ih =>
      cases index with
      | zero =>
          cases hFrame
          rcases h.2.1 hChained with ⟨hKind, outer, hHead, hElse⟩
          refine ⟨hKind, outer, ?_, hElse⟩
          rw [List.getElem?_cons_succ, ← List.head?_eq_getElem?]
          exact hHead
      | succ index => exact ih h.2.2 hFrame

/- The outermost block is not chained. -/
theorem AreChained.getLast?
    {blocks : List Frame}
    (h : AreChained blocks)
    {frame : Frame}
    (hLast : blocks.getLast? = some frame) :
    frame.chained = false := by
  rcases List.getLast?_eq_some_iff.mp hLast with ⟨inner, rfl⟩
  cases hChained : frame.chained with
  | false => rfl
  | true =>
      rcases h.of_append.2.1 hChained with ⟨-, outer, hHead, -⟩
      cases hHead

/-
  A conditional is part of a chain that ends in one that is
  not chained.  The blocks above the end are further
  conditions.
-/
theorem AreChained.exists_chain
    {frame : Frame}
    {rest : List Frame}
    (h : AreChained (frame :: rest))
    (hKind : frame.kind = .conditional) :
    ∃ conditions base around,
      frame :: rest = conditions ++ base :: around ∧
      (∀ condition ∈ conditions, condition.chained = true) ∧
      base.chained = false ∧ base.kind = .conditional ∧
      Chain around conditions.length (frame :: rest) := by
  induction rest generalizing frame with
  | nil =>
      have hChained : frame.chained = false := h.getLast? rfl
      exact ⟨[], frame, [], rfl, by simp, hChained, hKind,
        .first hKind hChained (h.1.epilogue hKind)⟩
  | cons next rest ih =>
      cases hChained : frame.chained with
      | false =>
          exact ⟨[], frame, next :: rest, rfl, by simp, hChained,
            hKind, .first hKind hChained (h.1.epilogue hKind)⟩
      | true =>
          rcases h.2.1 hChained with ⟨-, outer, hHead, hElse⟩
          cases hHead
          rcases ih h.2.2 hElse.1 with ⟨conditions, base, around,
            hSplit, hConditions, hBase, hBaseKind, hChain⟩
          refine ⟨frame :: conditions, base, around, ?_, ?_, hBase,
            hBaseKind, .further hKind hChained
              (h.1.epilogue hKind) hChain⟩
          · rw [List.cons_append, ← hSplit]
          · exact List.forall_mem_cons.mpr ⟨hChained, hConditions⟩

------------------------------------------------------------
-- What a Statement Makes of the Open Blocks
------------------------------------------------------------

/- All that a statement can make of the open blocks. -/
inductive Change
    (blocks : List Frame) : List Frame → Prop where
  | stay : Change blocks blocks
  | opened
      {frame : Frame}
      (hRegular : frame.IsRegular)
      (hChained : frame.chained = false) :
      Change blocks (frame :: blocks)
  | otherwise
      {frame : Frame}
      {rest : List Frame}
      (hBlocks : blocks = frame :: rest)
      (hElse : frame.takesElse = true) :
      Change blocks ({ frame with inElse := true } :: rest)
  | further
      {frame : Frame}
      {rest : List Frame}
      (line : Nat)
      (hBlocks : blocks = frame :: rest)
      (hElse : frame.takesElse = true) :
      Change blocks
        (⟨.conditional, "elif", line, true, false, []⟩ ::
          { frame with inElse := true } :: rest)
  | closedChain : Change blocks (unchain blocks)
  | closedOne : Change blocks blocks.tail

theorem isElse_of_takesElse
    {frame : Frame}
    (h : frame.takesElse = true) :
    IsElse { frame with inElse := true } := by
  simp only [takesElse, Bool.and_eq_true, beq_iff_eq] at h
  exact ⟨h.1, rfl⟩

/- A block that goes over to its `else` branch stays where it is. -/
theorem AreChained.inElse
    {frame : Frame}
    {rest : List Frame}
    (h : AreChained (frame :: rest)) :
    AreChained ({ frame with inElse := true } :: rest) :=
  ⟨⟨h.1.epilogue, h.1.opener⟩, h.2⟩

/- Blocks stay chained in whatever a statement makes of them. -/
theorem Change.areChained
    {blocks after : List Frame}
    (h : Change blocks after)
    (hBlocks : AreChained blocks) :
    AreChained after := by
  cases h with
  | stay => exact hBlocks
  | opened hRegular hChained =>
      exact ⟨hRegular, by simp [hChained], hBlocks⟩
  | otherwise hSplit hElse =>
      subst hSplit
      exact hBlocks.inElse
  | further line hSplit hElse =>
      subst hSplit
      exact ⟨⟨fun _ => rfl, fun _ => rfl⟩,
        fun _ => ⟨rfl, _, rfl, isElse_of_takesElse hElse⟩,
        hBlocks.inElse⟩
  | closedChain =>
      rcases unchain_suffix blocks with ⟨closed, hClosed⟩
      rw [← hClosed] at hBlocks
      exact hBlocks.of_append
  | closedOne =>
      cases blocks with
      | nil => exact hBlocks
      | cons frame rest => exact hBlocks.2.2

end Frame

namespace Event

/- A branch goes over to `else` and on from there, or it is refused. -/
theorem stackAll_continueElse_cases
    (line : Nat)
    (keyword : Text)
    (blocks : List Frame)
    (next : List Event) :
    stackAll blocks (continueElse line keyword blocks next) =
        blocks ∨
      ∃ frame rest, blocks = frame :: rest ∧
        frame.takesElse = true ∧
        stackAll blocks (continueElse line keyword blocks next) =
          stackAll ({ frame with inElse := true } :: rest)
            next := by
  cases blocks with
  | nil => exact Or.inl rfl
  | cons frame rest =>
      by_cases hElse : frame.takesElse = true
      · exact Or.inr ⟨frame, rest, rfl, hElse,
          (stackAll_continueElse line keyword hElse rest next).1⟩
      · left
        simp only [continueElse, hElse]
        rfl

/- Closing a chain reports nothing. -/
theorem flatMap_reports_closeChain
    (blocks : List Frame) :
    (closeChain blocks).flatMap reports = [] := by
  induction blocks with
  | nil => rfl
  | cons frame rest ih =>
      cases hChained : frame.chained <;>
        simp [closeChain, closeFrame, lines, reports, hChained, ih]

end Event

/- Every statement makes one of the changes. -/
theorem Command.change_events
    (blocks : List Frame)
    (loops line : Nat)
    (command : Command) :
    Frame.Change blocks
      (Event.stackAll blocks
        (command.events blocks loops line)) := by
  by_cases hRole : command.form.blockRole = .plain
  · rw [Event.stackAll_of_steady
      (Event.all_isSteady_of_all_isPlain
        (all_isPlain_events hRole blocks loops line))]
    exact .stay
  · rcases command with ⟨text, form⟩
    cases form with
    | ifOpen cond =>
        simp only [events, Event.openIf, Event.stackAll_openBranch]
        exact .opened ⟨fun _ => rfl, fun _ => rfl⟩ rfl
    | elifBranch cond =>
        simp only [events, Event.openElif]
        rcases Event.stackAll_continueElse_cases line "elif" blocks
            (Event.openBranch line cond
              ⟨.conditional, "elif", line, true, false, []⟩)
          with hSame | ⟨frame, rest, hBlocks, hElse, hNext⟩
        · rw [hSame]
          exact .stay
        · rw [hNext, Event.stackAll_openBranch]
          exact .further line hBlocks hElse
    | elseBranch =>
        simp only [events, Event.openElse]
        rcases Event.stackAll_continueElse_cases line "else" blocks
            [] with hSame | ⟨frame, rest, hBlocks, hElse, hNext⟩
        · rw [hSame]
          exact .stay
        · rw [hNext]
          exact .otherwise hBlocks hElse
    | ifClose =>
        simp only [events, Event.stackAll_closeIf]
        exact .closedChain
    | whileOpen cond =>
        simp only [events, Event.stackAll_openWhile]
        exact .opened (Frame.isRegular_of_loop rfl) rfl
    | forOpen var items =>
        rcases Event.exists_stackAll_openFor line loops var items
          blocks with ⟨epilogue, hStack⟩
        simp only [events, hStack]
        exact .opened (Frame.isRegular_of_loop rfl) rfl
    | loopClose =>
        simp only [events]
        cases blocks with
        | nil => exact .stay
        | cons frame rest =>
            rw [Event.closeLoop, Event.stackAll_closeAs]
            exact .closedOne
    | _ => exact absurd rfl hRole

/- A chain is closed down to the block that is not chained. -/
theorem Frame.unchain_append
    {conditions around : List Frame}
    {base : Frame}
    (hConditions : ∀ condition ∈ conditions,
      condition.chained = true)
    (hBase : base.chained = false) :
    unchain (conditions ++ base :: around) = around := by
  induction conditions with
  | nil => simp [unchain, hBase]
  | cons condition conditions ih =>
      rw [List.forall_mem_cons] at hConditions
      simp [unchain, hConditions.1, ih hConditions.2]

namespace Draft

/- Statements leave the blocks of a draft chained. -/
theorem areChained_addCommands
    {draft : Draft}
    (h : Frame.AreChained draft.blocks)
    (commands : List (Nat × Command)) :
    Frame.AreChained (draft.addCommands commands).blocks := by
  induction commands generalizing draft with
  | nil => exact h
  | cons command commands ih =>
      rw [addCommands_cons]
      apply ih
      rw [addCommand, blocks_extend]
      exact (command.2.change_events draft.blocks draft.loops
        command.1).areChained h

------------------------------------------------------------
-- Closing
------------------------------------------------------------

/-
  The keyword `fi` closes a chain: further conditions down
  to a block that is not chained, and none around that.  In
  a conditional, it writes one brace for each block that it
  closes, and reports nothing.
-/
structure ClosesChain
    (draft : Draft)
    (conditions : List Frame)
    (base : Frame)
    (around : List Frame)
    (after : Draft) : Prop where
  blocks_eq : draft.blocks = conditions ++ base :: around
  of_mem_conditions : ∀ condition ∈ conditions,
    condition.kind = .conditional ∧ condition.chained = true ∧
      condition.opener = "elif"
  base_not_chained : base.chained = false
  blocks_after : after.blocks = around
  of_conditional : ∀ frame, draft.blocks.head? = some frame →
    frame.kind = .conditional →
      base.kind = .conditional ∧ base.opener = "if" ∧
      after.rows.toList = draft.rows.toList ++
        Row.closers around.length (conditions.length + 1) ∧
      after.diagnostics.toList = draft.diagnostics.toList

/- In chained blocks, the keyword `fi` always finds its chain. -/
theorem exists_closesChain
    (draft : Draft)
    (h : Frame.AreChained draft.blocks)
    (hOpen : draft.blocks ≠ [])
    (line : Nat)
    (text : Text) :
    ∃ conditions base around,
      draft.ClosesChain conditions base around
        (draft.addCommand line ⟨text, .ifClose⟩) := by
  have hAfter : (draft.addCommand line ⟨text, .ifClose⟩).blocks =
      Frame.unchain draft.blocks := by
    rw [addCommand, blocks_extend]
    exact Event.stackAll_closeIf line draft.blocks
  rcases List.exists_cons_of_ne_nil hOpen with
    ⟨frame, rest, hBlocks⟩
  rw [hBlocks] at h
  cases hKind : frame.kind with
  | loop =>
      -- A loop is not chained, so it is all that is closed.
      have hChained : frame.chained = false := by
        cases hChained : frame.chained with
        | false => rfl
        | true =>
            rw [(h.2.1 hChained).1] at hKind
            cases hKind
      refine ⟨[], frame, rest, hBlocks, by simp, hChained, ?_, ?_⟩
      · rw [hAfter, hBlocks]
        exact @Frame.unchain_append [] rest frame (by simp) hChained
      · intro top hTop hTopKind
        rw [hBlocks] at hTop
        cases hTop
        rw [hKind] at hTopKind
        cases hTopKind
  | conditional =>
      rcases h.exists_chain hKind with ⟨conditions, base, around,
        hSplit, hConditions, hBase, hBaseKind, hChain⟩
      have hRegular := h.isRegular
      have hClose := Event.closeChain_eq hChain draft.file
      have hEvents := Event.closeIf_eq_closeChain hChain line
      refine ⟨conditions, base, around, hBlocks.trans hSplit, ?_,
        hBase, ?_, ?_⟩
      · intro condition hCondition
        have hChained := hConditions condition hCondition
        have hMem : condition ∈ frame :: rest := by
          rw [hSplit]
          exact List.mem_append_left _ hCondition
        rcases List.getElem?_of_mem hMem with ⟨index, hIndex⟩
        have hCond := (h.outer hIndex hChained).1
        refine ⟨hCond, hChained, ?_⟩
        rw [(hRegular condition hMem).opener hCond, if_pos hChained]
      · rw [hAfter, hBlocks, hSplit]
        exact Frame.unchain_append hConditions hBase
      · intro top hTop hTopKind
        have hMem : base ∈ frame :: rest := by
          rw [hSplit]
          simp
        refine ⟨hBaseKind, ?_, ?_, ?_⟩
        · rw [(hRegular base hMem).opener hBaseKind,
            if_neg (by simp [hBase])]
        · rw [addCommand, toList_rows_extend, hBlocks,
            ← hClose.2.2]
          exact congrArg (_ ++ Event.rowsAll draft.file _ ·) hEvents
        · rw [addCommand, toList_diagnostics_extend, hBlocks,
            Command.events, hEvents,
            Event.flatMap_reports_closeChain, List.append_nil]

------------------------------------------------------------
-- Drafts
------------------------------------------------------------

/-
  After any statements, a chained block is a conditional
  right above the `else` branch of another one, the
  outermost block is not chained, and only loops have an
  epilogue.  So wherever a block is open, the keyword `fi`
  closes a whole chain, and the end of the script reports
  the outermost block, whatever it reports before.
-/
theorem chains_closed_whole
    (file unit : Text)
    (commands : List (Nat × Command)) :
    let draft := (start file unit).addCommands commands
    (∀ index frame, draft.blocks[index]? = some frame →
      frame.chained = true →
        frame.kind = .conditional ∧
        ∃ outer, draft.blocks[index + 1]? = some outer ∧
          outer.kind = .conditional ∧ outer.inElse = true) ∧
    (∀ outermost, draft.blocks.getLast? = some outermost →
      outermost.chained = false) ∧
    (∀ frame ∈ draft.blocks, frame.epilogue ≠ [] →
      frame.kind = .loop) ∧
    (draft.blocks ≠ [] → ∀ line text,
      ∃ conditions base around,
        draft.ClosesChain conditions base around
          (draft.addCommand line ⟨text, .ifClose⟩)) ∧
    (∀ outermost, draft.blocks.getLast? = some outermost →
      ∃ reports, draft.finish.diagnostics.toList =
        draft.diagnostics.toList ++ reports ++
          [⟨.error, outermost.line,
            (Fault.unclosed outermost.opener).message⟩]) := by
  intro draft
  have hStart : Frame.AreChained (start file unit).blocks :=
    trivial
  have hChained : Frame.AreChained draft.blocks :=
    areChained_addCommands hStart commands
  refine ⟨fun index frame hFrame => hChained.outer hFrame,
    fun outermost hLast => hChained.getLast? hLast, ?_,
    draft.exists_closesChain hChained, ?_⟩
  · intro frame hFrame hEpilogue
    cases hKind : frame.kind with
    | loop => rfl
    | conditional =>
        exact absurd
          ((hChained.isRegular frame hFrame).epilogue hKind)
          hEpilogue
  · intro outermost hLast
    have hOutermost := hChained.getLast? hLast
    have hEnd := (Event.flatMap_reports_closeAll
      (isCode_of_mem_blocks file unit commands)).2
    rcases List.getLast?_eq_some_iff.mp hLast with
      ⟨inner, hInner⟩
    refine ⟨(inner.filter (!·.chained)).map Event.unclosedReport,
      ?_⟩
    rw [finish, toList_diagnostics_extend, hEnd]
    change _ ++ (draft.blocks.filter _).map _ = _
    rw [hInner]
    simp [hOutermost, Event.unclosedReport]

/-
  Two further conditions, and between them a loop that `fi`
  closes in place of `done`.
-/
theorem chains_closed_whole_of_elif :
    let draft := (start "a.sh" "  ").addCommands
      [(1, ⟨"for i in a$y", .forOpen "i" (some "a$y")⟩),
       (2, ⟨"if x", .ifOpen "x"⟩),
       (3, ⟨"elif y", .elifBranch "y"⟩),
       (4, ⟨"while z", .whileOpen "z"⟩),
       (5, ⟨"fi", .ifClose⟩),
       (6, ⟨"elif z", .elifBranch "z"⟩),
       (7, ⟨"else", .elseBranch⟩)]
    draft.blocks.map (fun frame =>
        (frame.line, frame.chained, frame.inElse)) =
      [(6, true, true), (3, true, true), (2, false, true),
       (1, false, false)] ∧
    (∃ conditions base around,
      draft.ClosesChain conditions base around
        (draft.addCommand 8 ⟨"fi", .ifClose⟩)) ∧
    ∃ reports, draft.finish.diagnostics.toList =
      draft.diagnostics.toList ++ reports ++
        [⟨.error, 1, (Fault.unclosed "for").message⟩] := by
  intro draft
  have hBlocks : draft.blocks.map (fun frame =>
        (frame.line, frame.chained, frame.inElse)) =
      [(6, true, true), (3, true, true), (2, false, true),
       (1, false, false)] ∧
      draft.blocks.getLast?.map Frame.label =
        some (1, Text.ofString "for") := by
    decide +kernel
  rcases Option.map_eq_some_iff.mp hBlocks.2 with
    ⟨outermost, hLast, hLabel⟩
  simp only [Frame.label, Prod.mk.injEq] at hLabel
  have hOpen : draft.blocks ≠ [] := by
    intro hNil
    rw [hNil] at hLast
    cases hLast
  rcases chains_closed_whole "a.sh" "  " _ with
    ⟨_, _, _, hClose, hEnd⟩
  have hLine := hEnd outermost hLast
  rw [hLabel.1, hLabel.2] at hLine
  exact ⟨hBlocks.1, hClose hOpen 8 "fi", hLine⟩

end Draft

end ShellToC
