import ShellToC.Proofs.Quiet

/-
  This file shows which scripts are well nested: exactly
  those about whose blocks nothing is reported.

  The open blocks of a draft follow the machine that accepts
  the grammar.  All conditions of one conditional are one
  open block of the machine, though each has a block of its
  own in the draft.

  Key definitions include:
    * `Frame.openBlocks`
    * `Frame.AreLinked`
    * `Event.Follows`

  Main declarations:
    * `Command.follows_events`
    * `Command.follows_eventsAll`
    * `Program.not_concernsBlocks_iff_derives`
-/

namespace ShellToC

------------------------------------------------------------
-- The Open Blocks of a Draft
------------------------------------------------------------

namespace Frame

/- What the block is to the machine. -/
def openBlock
    (frame : Frame) : OpenBlock :=
  match frame.kind, frame.inElse with
  | .conditional, false => .branch
  | .conditional, true => .last
  | .loop, _ => .loop

/-
  The open blocks of the machine.  A chained block stands
  for the one that it continues.
-/
def openBlocks : List Frame → List OpenBlock
  | [] => []
  | frame :: rest =>
      frame.openBlock ::
        if frame.chained then
          (openBlocks rest).tail
        else
          openBlocks rest

/- Every chained block continues a conditional. -/
def AreLinked : List Frame → Prop
  | [] => True
  | frame :: rest =>
      (frame.chained = true →
        frame.kind = .conditional ∧ rest ≠ []) ∧
      AreLinked rest

theorem openBlock_eq_branch_iff
    (frame : Frame) :
    frame.openBlock = .branch ↔ frame.takesElse = true := by
  rcases frame with ⟨kind, _, _, _, inElse, _⟩
  cases kind <;> cases inElse <;>
    simp [openBlock, takesElse]

theorem openBlock_eq_loop_iff
    (frame : Frame) :
    frame.openBlock = .loop ↔ frame.kind = .loop := by
  rcases frame with ⟨kind, _, _, _, inElse, _⟩
  cases kind <;> cases inElse <;> simp [openBlock]

theorem openBlocks_eq_nil_iff
    {blocks : List Frame} :
    openBlocks blocks = [] ↔ blocks = [] := by
  cases blocks <;> simp [openBlocks]

/- The blocks that are left when a chain is closed. -/
def unchain : List Frame → List Frame
  | [] => []
  | frame :: rest => if frame.chained then unchain rest else rest

theorem openBlocks_unchain
    (blocks : List Frame) :
    openBlocks (unchain blocks) = (openBlocks blocks).tail := by
  induction blocks with
  | nil => rfl
  | cons frame rest ih =>
      simp only [unchain, openBlocks, List.tail_cons]
      split
      · exact ih
      · rfl

theorem areLinked_unchain
    {blocks : List Frame}
    (h : AreLinked blocks) :
    AreLinked (unchain blocks) := by
  induction blocks with
  | nil => exact h
  | cons frame rest ih =>
      simp only [unchain]
      split
      · exact ih h.2
      · exact h.2

end Frame

------------------------------------------------------------
-- Following the Machine
------------------------------------------------------------

namespace Event

/-
  The events go on from the given blocks as the machine
  does: quietly to its next open blocks, or with a report if
  it has none.
-/
def Follows
    (blocks : List Frame)
    (events : List Event)
    (next : Option (List OpenBlock)) : Prop :=
  Frame.AreLinked (stackAll blocks events) ∧
    match next with
    | some opened =>
        IsQuiet events ∧
          Frame.openBlocks (stackAll blocks events) = opened
    | none => ∃ event ∈ events, event.concernsBlocks = true

theorem follows_of_steady
    {events : List Event}
    (h : events.all isSteady = true)
    {blocks : List Frame}
    (hBlocks : Frame.AreLinked blocks) :
    Follows blocks events (some (Frame.openBlocks blocks)) := by
  refine ⟨?_, isQuiet_of_steady h, ?_⟩
  · rw [stackAll_of_steady h]
    exact hBlocks
  · rw [stackAll_of_steady h]

/- A block is opened among steady events. -/
theorem follows_push
    {a b : List Event}
    (ha : a.all isSteady = true)
    (hb : b.all isSteady = true)
    {frame : Frame}
    (hFrame : frame.chained = false)
    {blocks : List Frame}
    (hBlocks : Frame.AreLinked blocks) :
    Follows blocks (a ++ .push frame :: b)
      (some (frame.openBlock :: Frame.openBlocks blocks)) := by
  have hStack := stackAll_push ha hb frame blocks
  refine ⟨?_, ?_, ?_⟩
  · rw [hStack]
    exact ⟨by simp [hFrame], hBlocks⟩
  · exact isQuiet_append.mpr ⟨isQuiet_of_steady ha,
      isQuiet_cons.mpr ⟨rfl, isQuiet_of_steady hb⟩⟩
  · rw [hStack]
    simp [Frame.openBlocks, hFrame]

theorem follows_openIf
    (line : Nat)
    (cond : Text)
    {blocks : List Frame}
    (hBlocks : Frame.AreLinked blocks) :
    Follows blocks (openIf line cond)
      (OpenBlock.step (Frame.openBlocks blocks) .ifOpen) := by
  have hCondition :
      (condition line cond ++ [write 0 .openOnSuccess]).all
        isSteady = true := by
    rw [List.all_append, all_isSteady_condition]
    rfl
  have h := @follows_push _ [] hCondition rfl
    ⟨.conditional, "if", line, false, false, []⟩ rfl _ hBlocks
  rw [List.append_assoc] at h
  exact h

theorem follows_openWhile
    (line : Nat)
    (cond : Text)
    {blocks : List Frame}
    (hBlocks : Frame.AreLinked blocks) :
    Follows blocks (openWhile line cond)
      (OpenBlock.step (Frame.openBlocks blocks) .loopOpen) := by
  have hCondition :
      (condition line cond ++
        [write 0 .openOnFailure, write 1 .leaveLoop,
         write 0 .close]).all isSteady = true := by
    rw [List.all_append, all_isSteady_condition]
    rfl
  exact @follows_push [.write 0 .openForever] _ rfl hCondition
    ⟨.loop, "while", line, false, false, []⟩ rfl _ hBlocks

theorem follows_openForItems
    (line loop : Nat)
    (var : Text)
    (items : List Template)
    {blocks : List Frame}
    (hBlocks : Frame.AreLinked blocks) :
    Follows blocks (openForItems line loop var items)
      (OpenBlock.step (Frame.openBlocks blocks) .loopOpen) := by
  have h := @follows_push
    [.write 0 (declareItems loop items),
     .write 0 (.openItems loop items.length)]
    [.write 0 (.assignItem var loop)] rfl rfl
    (forFrame line (freeItems loop items)) rfl _ hBlocks
  exact ⟨h.1, isQuiet_cons.mpr ⟨rfl, h.2.1⟩, h.2.2⟩

theorem follows_openFor
    (line loops : Nat)
    (var : Text)
    (items : Option Text)
    {blocks : List Frame}
    (hBlocks : Frame.AreLinked blocks) :
    Follows blocks (openFor line loops var items)
      (OpenBlock.step (Frame.openBlocks blocks) .loopOpen) := by
  unfold openFor
  split
  · exact @follows_push [.write 0 .openNever] [] rfl rfl
      (forFrame line []) rfl _ hBlocks
  · exact follows_openForItems line (loops + 1) var _ hBlocks

------------------------------------------------------------
-- Further Branches
------------------------------------------------------------

/- Where no `else` branch can follow, the keyword is reported. -/
theorem follows_continueElse_none
    (line : Nat)
    (keyword : Text)
    {blocks : List Frame}
    (hBlocks : Frame.AreLinked blocks)
    (hTop : (Frame.openBlocks blocks).head? ≠ some .branch)
    (next : List Event) :
    Follows blocks (continueElse line keyword blocks next)
      none := by
  cases blocks with
  | nil =>
      exact ⟨trivial, _, List.mem_singleton_self _, rfl⟩
  | cons frame rest =>
      have hElse : ¬ frame.takesElse = true := by
        rw [← frame.openBlock_eq_branch_iff]
        simpa [Frame.openBlocks] using hTop
      simp only [continueElse, hElse]
      exact ⟨hBlocks, .fail line (.unopened keyword),
        by simp, rfl⟩

/- A block that takes an `else` branch is left in it. -/
theorem stackAll_continueElse
    (line : Nat)
    (keyword : Text)
    {frame : Frame}
    (hElse : frame.takesElse = true)
    (rest : List Frame)
    (next : List Event) :
    stackAll (frame :: rest)
        (continueElse line keyword (frame :: rest) next) =
      stackAll ({ frame with inElse := true } :: rest) next ∧
    (IsQuiet next →
      IsQuiet (continueElse line keyword (frame :: rest)
        next)) := by
  simp only [continueElse, hElse, if_true]
  refine ⟨rfl, ?_⟩
  intro hNext
  simp [concernsBlocks, hNext]

theorem follows_openElse
    (line : Nat)
    {blocks : List Frame}
    (hBlocks : Frame.AreLinked blocks) :
    Follows blocks (openElse line blocks)
      (OpenBlock.step (Frame.openBlocks blocks)
        .otherwise) := by
  by_cases hTop :
      (Frame.openBlocks blocks).head? = some .branch
  · cases blocks with
    | nil => cases hTop
    | cons frame rest =>
        have hOpen : frame.openBlock = .branch := by
          simpa [Frame.openBlocks] using hTop
        have hElse := frame.openBlock_eq_branch_iff.mp hOpen
        have hKind : frame.kind = .conditional := by
          simp only [Frame.takesElse, Bool.and_eq_true,
            beq_iff_eq] at hElse
          exact hElse.1
        rcases stackAll_continueElse line "else" hElse rest []
          with ⟨hStack, hQuiet⟩
        simp only [Frame.openBlocks, hOpen, OpenBlock.step]
        refine ⟨?_, hQuiet isQuiet_nil, ?_⟩
        · rw [openElse, hStack]
          exact hBlocks
        · rw [openElse, hStack]
          simp [stackAll, Frame.openBlocks, Frame.openBlock,
            hKind]
  · have hNone : OpenBlock.step (Frame.openBlocks blocks)
        .otherwise = none := by
      unfold OpenBlock.step
      split <;> simp_all
    rw [hNone]
    exact follows_continueElse_none line "else" hBlocks hTop []

theorem follows_openElif
    (line : Nat)
    (cond : Text)
    {blocks : List Frame}
    (hBlocks : Frame.AreLinked blocks) :
    Follows blocks (openElif line cond blocks)
      (OpenBlock.step (Frame.openBlocks blocks) .elif) := by
  by_cases hTop :
      (Frame.openBlocks blocks).head? = some .branch
  · cases blocks with
    | nil => cases hTop
    | cons frame rest =>
        have hOpen : frame.openBlock = .branch := by
          simpa [Frame.openBlocks] using hTop
        have hElse := frame.openBlock_eq_branch_iff.mp hOpen
        have hCondition := all_isSteady_condition line cond
        rcases stackAll_continueElse line "elif" hElse rest
            (openBranch line cond
              ⟨.conditional, "elif", line, true, false, []⟩)
          with ⟨hStack, hQuiet⟩
        have hPushed : stackAll (frame :: rest)
            (openElif line cond (frame :: rest)) =
              ⟨.conditional, "elif", line, true, false, []⟩ ::
                { frame with inElse := true } :: rest := by
          rw [openElif, hStack, openBranch, stackAll_append,
            stackAll_of_steady hCondition]
          rfl
        simp only [Frame.openBlocks, hOpen, OpenBlock.step]
        refine ⟨?_, hQuiet ?_, ?_⟩
        · rw [hPushed]
          exact ⟨by simp, hBlocks⟩
        · simp [openBranch, isQuiet_of_steady hCondition,
            concernsBlocks]
        · rw [hPushed]
          rfl
  · have hNone : OpenBlock.step (Frame.openBlocks blocks)
        .elif = none := by
      unfold OpenBlock.step
      split <;> simp_all
    rw [hNone]
    exact follows_continueElse_none line "elif" hBlocks hTop _

------------------------------------------------------------
-- Closing
------------------------------------------------------------

/- Closing a chain is quiet and leaves the blocks around it. -/
theorem stackAll_closeChain
    (blocks : List Frame) :
    stackAll blocks (closeChain blocks) =
        Frame.unchain blocks ∧
      IsQuiet (closeChain blocks) := by
  induction blocks with
  | nil => exact ⟨rfl, isQuiet_nil⟩
  | cons frame rest ih =>
      have hFrame := all_isSteady_closeFrame frame
      have hPop : IsQuiet (.pop :: closeFrame frame) :=
        isQuiet_cons.mpr ⟨rfl, isQuiet_of_steady hFrame⟩
      have hStack : stackAll (frame :: rest)
          (.pop :: closeFrame frame) = rest :=
        stackAll_of_steady hFrame rest
      simp only [closeChain, Frame.unchain]
      rw [stackAll_append, hStack, isQuiet_append]
      split
      · exact ⟨ih.1, hPop, ih.2⟩
      · exact ⟨rfl, hPop, isQuiet_nil⟩

/- A keyword that closes a block is quiet if the block is of its kind. -/
theorem isQuiet_closeAs_iff
    (line : Nat)
    (keyword : Text)
    (expected : BlockKind)
    (frame : Frame) :
    IsQuiet (closeAs line keyword expected frame) ↔
      frame.kind = expected := by
  have hFrame :=
    isQuiet_of_steady (all_isSteady_closeFrame frame)
  unfold closeAs
  split
  · simp [concernsBlocks, *]
  · simp [mismatch, concernsBlocks, *]

/- What is not quiet reports something. -/
theorem exists_concernsBlocks_of_not_isQuiet
    {events : List Event}
    (h : ¬ IsQuiet events) :
    ∃ event ∈ events, event.concernsBlocks = true := by
  simpa [IsQuiet] using h

theorem follows_closeIf
    (line : Nat)
    {blocks : List Frame}
    (hBlocks : Frame.AreLinked blocks) :
    Follows blocks (closeIf line blocks)
      (OpenBlock.step (Frame.openBlocks blocks) .fi) := by
  cases blocks with
  | nil =>
      exact ⟨trivial, _, List.mem_singleton_self _, rfl⟩
  | cons frame rest =>
      have hChain := stackAll_closeChain rest
      have hStack : stackAll (frame :: rest)
          (closeIf line (frame :: rest)) =
            Frame.unchain (frame :: rest) := by
        simp only [closeIf, Frame.unchain]
        rw [stackAll_append, stackAll_closeAs]
        split
        · exact hChain.1
        · rfl
      refine ⟨?_, ?_⟩
      · rw [hStack]
        exact Frame.areLinked_unchain hBlocks
      · rw [hStack]
        by_cases hKind : frame.kind = .conditional
        · have hQuiet : IsQuiet
              (closeIf line (frame :: rest)) := by
            simp only [closeIf, isQuiet_append]
            refine ⟨(isQuiet_closeAs_iff ..).mpr hKind, ?_⟩
            split
            · exact hChain.2
            · exact isQuiet_nil
          have hOpen := Frame.openBlocks_unchain (frame :: rest)
          have hStep : OpenBlock.step
              (Frame.openBlocks (frame :: rest)) .fi =
                some (Frame.openBlocks
                  (frame :: rest)).tail := by
            cases hElse : frame.inElse <;>
              simp [Frame.openBlocks, Frame.openBlock, hKind,
                hElse, OpenBlock.step]
          rw [hStep]
          exact ⟨hQuiet, hOpen⟩
        · have hLoop : frame.kind = .loop := by
            cases hCase : frame.kind with
            | conditional => exact absurd hCase hKind
            | loop => rfl
          have hStep : OpenBlock.step
              (Frame.openBlocks (frame :: rest)) .fi =
                none := by
            simp [Frame.openBlocks, Frame.openBlock, hLoop,
              OpenBlock.step]
          rw [hStep]
          refine exists_concernsBlocks_of_not_isQuiet ?_
          intro hQuiet
          simp only [closeIf, isQuiet_append] at hQuiet
          exact hKind
            ((isQuiet_closeAs_iff ..).mp hQuiet.1)

theorem follows_closeLoop
    (line : Nat)
    {blocks : List Frame}
    (hBlocks : Frame.AreLinked blocks) :
    Follows blocks (closeLoop line blocks)
      (OpenBlock.step (Frame.openBlocks blocks) .done) := by
  cases blocks with
  | nil =>
      exact ⟨trivial, _, List.mem_singleton_self _, rfl⟩
  | cons frame rest =>
      have hStack := stackAll_closeAs line "done" .loop frame rest
      refine ⟨?_, ?_⟩
      · rw [closeLoop, hStack]
        exact hBlocks.2
      · rw [closeLoop, hStack]
        by_cases hKind : frame.kind = .loop
        · have hChained : frame.chained = false := by
            cases hCase : frame.chained with
            | false => rfl
            | true =>
                have hLinked := (hBlocks.1 hCase).1
                rw [hKind] at hLinked
                cases hLinked
          have hStep : OpenBlock.step
              (Frame.openBlocks (frame :: rest)) .done =
                some (Frame.openBlocks rest) := by
            simp [Frame.openBlocks, Frame.openBlock, hKind,
              hChained, OpenBlock.step]
          rw [hStep]
          exact ⟨(isQuiet_closeAs_iff ..).mpr hKind, rfl⟩
        · have hOpen : frame.openBlock ≠ .loop := by
            rw [Ne, frame.openBlock_eq_loop_iff]
            exact hKind
          have hStep : OpenBlock.step
              (Frame.openBlocks (frame :: rest)) .done =
                none := by
            simp only [Frame.openBlocks]
            unfold OpenBlock.step
            split <;> simp_all
          rw [hStep]
          refine exists_concernsBlocks_of_not_isQuiet ?_
          intro hQuiet
          exact hKind ((isQuiet_closeAs_iff ..).mp hQuiet)

/- The end of the script is quiet only if no block is open. -/
theorem isQuiet_closeAll_iff
    {blocks : List Frame}
    (hBlocks : Frame.AreLinked blocks) :
    IsQuiet (closeAll blocks) ↔ blocks = [] := by
  induction blocks with
  | nil => simp [closeAll]
  | cons frame rest ih =>
      simp only [closeAll, List.flatMap_cons, reduceCtorEq,
        iff_false]
      intro hQuiet
      rw [isQuiet_append] at hQuiet
      cases hChained : frame.chained with
      | false =>
          have hFail := hQuiet.1
          simp [hChained, concernsBlocks,
            Fault.concernsBlocks] at hFail
      | true =>
          -- The bottom block is never chained.
          have hRest := (ih hBlocks.2).mp hQuiet.2
          exact (hBlocks.1 hChained).2 hRest

end Event

------------------------------------------------------------
-- Scripts
------------------------------------------------------------

namespace Command

/- One statement follows one step of the machine. -/
theorem follows_events
    {blocks : List Frame}
    (hBlocks : Frame.AreLinked blocks)
    (loops line : Nat)
    (command : Command) :
    Event.Follows blocks (command.events blocks loops line)
      (OpenBlock.step (Frame.openBlocks blocks)
        command.form.blockRole) := by
  by_cases hRole : command.form.blockRole = .plain
  · rw [hRole]
    exact Event.follows_of_steady
      (Event.all_isSteady_of_all_isPlain
        (all_isPlain_events hRole blocks loops line)) hBlocks
  · rcases command with ⟨text, form⟩
    cases form with
    | ifOpen cond =>
        exact Event.follows_openIf line cond hBlocks
    | elifBranch cond =>
        exact Event.follows_openElif line cond hBlocks
    | elseBranch => exact Event.follows_openElse line hBlocks
    | ifClose => exact Event.follows_closeIf line hBlocks
    | whileOpen cond =>
        exact Event.follows_openWhile line cond hBlocks
    | forOpen var items =>
        exact Event.follows_openFor line loops var items hBlocks
    | loopClose => exact Event.follows_closeLoop line hBlocks
    | _ => exact absurd rfl hRole

/- A whole sequence of statements follows the machine. -/
theorem follows_eventsAll
    {blocks : List Frame}
    (hBlocks : Frame.AreLinked blocks)
    (loops : Nat)
    (commands : List (Nat × Command)) :
    Event.Follows blocks (eventsAll blocks loops commands)
      (OpenBlock.run (Frame.openBlocks blocks)
        (commands.map (·.2.form.blockRole))) := by
  induction commands generalizing blocks loops with
  | nil => exact ⟨hBlocks, Event.isQuiet_nil, rfl⟩
  | cons command commands ih =>
      rcases command with ⟨line, command⟩
      have hFirst := follows_events hBlocks loops line command
      have hRest := ih hFirst.1 (loops +
        Event.loopsAll (command.events blocks loops line))
      simp only [eventsAll, List.map_cons, OpenBlock.run]
      refine ⟨?_, ?_⟩
      · rw [Event.stackAll_append]
        exact hRest.1
      cases hStep : OpenBlock.step (Frame.openBlocks blocks)
          command.form.blockRole with
      | none =>
          rw [hStep] at hFirst
          rcases hFirst.2 with ⟨event, hEvent, hConcerns⟩
          exact ⟨event, List.mem_append_left _ hEvent,
            hConcerns⟩
      | some opened =>
          rw [hStep] at hFirst
          have hRun := hRest.2
          rw [hFirst.2.2] at hRun
          rw [Option.bind_some, Event.stackAll_append]
          revert hRun
          cases OpenBlock.run opened
              (commands.map (·.2.form.blockRole)) with
          | none =>
              rintro ⟨event, hEvent, hConcerns⟩
              exact ⟨event, List.mem_append_right _ hEvent,
                hConcerns⟩
          | some final =>
              rintro ⟨hQuiet, hOpened⟩
              exact ⟨Event.isQuiet_append.mpr
                ⟨hFirst.2.1, hQuiet⟩, hOpened⟩

/- Up to its end, a script is quiet exactly if the grammar derives it. -/
theorem isQuiet_eventsToEnd_iff
    (loops : Nat)
    (commands : List (Nat × Command)) :
    Event.IsQuiet (eventsToEnd [] loops commands) ↔
      BlockRole.Derives .script
        (commands.map (·.2.form.blockRole)) := by
  have hFollows := @follows_eventsAll [] trivial loops commands
  rw [← OpenBlock.run_eq_some_nil_iff, eventsToEnd,
    Event.isQuiet_append,
    Event.isQuiet_closeAll_iff hFollows.1,
    ← Frame.openBlocks_eq_nil_iff]
  have hRun := hFollows.2
  simp only [Frame.openBlocks] at hRun
  revert hRun
  cases OpenBlock.run [] (commands.map (·.2.form.blockRole)) with
  | none =>
      rintro ⟨event, hEvent, hConcerns⟩
      constructor
      · rintro ⟨hQuiet, _⟩
        rw [hQuiet event hEvent] at hConcerns
        cases hConcerns
      · intro hNone
        cases hNone
  | some opened =>
      rintro ⟨hQuiet, hOpened⟩
      rw [hOpened, Option.some.injEq]
      exact ⟨fun h => h.2, fun h => ⟨hQuiet, h⟩⟩

end Command

/-
  Nothing is reported about the blocks of a script if and
  only if the grammar of blocks derives the sequence of its
  statements.
-/
theorem Program.not_concernsBlocks_iff_derives
    (file unit script : Text) :
    (∀ d ∈ (ofScript file unit script).diagnostics,
      ¬ d.ConcernsBlocks) ↔
    BlockRole.Derives .script
      ((Statement.ofScript script).map fun statement =>
        (Command.ofText statement.text).form.blockRole) := by
  rcases Draft.ofScript_eq file unit script with ⟨log, hDraft⟩
  have hReports :
      (ofScript file unit script).diagnostics.toList =
        (Command.eventsToEnd [] 0
          (Command.ofScript script)).flatMap
            Event.reports := by
    simp only [ofScript, ofDraft, hDraft,
      Draft.finish_addCommands_eq_extend,
      Draft.toList_diagnostics_extend]
    rfl
  have hQuiet := Command.isQuiet_eventsToEnd_iff 0
    (Command.ofScript script)
  rw [Event.isQuiet_iff_reports, ← hReports] at hQuiet
  simpa [Command.ofScript, Function.comp_def] using hQuiet

end ShellToC