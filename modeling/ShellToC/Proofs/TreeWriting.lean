import ShellToC.Proofs.BlockTree

/-
  This file shows that the statements of a tree, which are
  written one by one, write the code of the tree and leave
  the open blocks as they were.

  Every keyword is shown to write its part of the code on
  top of the blocks that are open.  The blocks of a
  conditional and of its further conditions make up a chain,
  which one keyword closes.

  Key definitions include:
    * `Command.Writes`
    * `Frame.Chain`
    * `BlockTree.Unfolds`

  Main declarations:
    * `BlockTree.unfolds`
    * `BlockTree.chain_of_front`
-/

namespace ShellToC

------------------------------------------------------------
-- Writing Statements
------------------------------------------------------------

namespace Command

/-
  Statements write lines, and lead from open blocks and a
  number of loops to others.
-/
structure Writes
    (file : Text)
    (blocks : List Frame)
    (loops : Nat)
    (commands : List (Nat × Command))
    (lines : List CodeLine)
    (blocks' : List Frame)
    (loops' : Nat) : Prop where
  stack_eq :
    Event.stackAll blocks (eventsAll blocks loops commands) =
      blocks'
  loops_eq :
    loops + Event.loopsAll (eventsAll blocks loops commands) =
      loops'
  lines_eq :
    (Event.rowsAll file blocks
      (eventsAll blocks loops commands)).map Row.codeLine =
        lines

namespace Writes

theorem nil
    (file : Text)
    (blocks : List Frame)
    (loops : Nat) :
    Writes file blocks loops [] [] blocks loops :=
  ⟨rfl, rfl, rfl⟩

theorem append
    {file : Text}
    {blocks blocks' blocks'' : List Frame}
    {loops loops' loops'' : Nat}
    {a b : List (Nat × Command)}
    {lines lines' : List CodeLine}
    (ha : Writes file blocks loops a lines blocks' loops')
    (hb : Writes file blocks' loops' b lines' blocks''
      loops'') :
    Writes file blocks loops (a ++ b) (lines ++ lines')
      blocks'' loops'' := by
  have hEvents := eventsAll_append blocks loops a b
  rw [ha.stack_eq, ha.loops_eq] at hEvents
  constructor
  · rw [hEvents, Event.stackAll_append, ha.stack_eq,
      hb.stack_eq]
  · rw [hEvents, Event.loopsAll_append, ← Nat.add_assoc,
      ha.loops_eq, hb.loops_eq]
  · rw [hEvents, Event.rowsAll_append, ha.stack_eq,
      List.map_append, ha.lines_eq, hb.lines_eq]

theorem congr
    {file : Text}
    {blocks blocks' : List Frame}
    {loops loops' loops'' : Nat}
    {commands : List (Nat × Command)}
    {lines lines' : List CodeLine}
    (h : Writes file blocks loops commands lines blocks'
      loops')
    (hLines : lines = lines')
    (hLoops : loops' = loops'') :
    Writes file blocks loops commands lines' blocks'
      loops'' := by
  rw [← hLines, ← hLoops]
  exact h

/- A single statement writes what its events write. -/
theorem single
    {file : Text}
    {blocks blocks' : List Frame}
    {loops loops' line : Nat}
    {command : Command}
    {events : List Event}
    {rows : List Row}
    (hEvents : command.events blocks loops line = events)
    (hStack : Event.stackAll blocks events = blocks')
    (hLoops : loops + Event.loopsAll events = loops')
    (hRows : Event.rowsAll file blocks events = rows) :
    Writes file blocks loops [(line, command)]
      (rows.map Row.codeLine) blocks' loops' := by
  have hAll :
      eventsAll blocks loops [(line, command)] = events := by
    simp [eventsAll, hEvents]
  exact ⟨by rw [hAll, hStack], by rw [hAll, hLoops],
    by rw [hAll, hRows]⟩

/- A single statement that opens a block among steady events. -/
theorem single_push
    {file : Text}
    {blocks : List Frame}
    {loops line : Nat}
    {command : Command}
    {a b : List Event}
    {frame : Frame}
    (hEvents : command.events blocks loops line =
      a ++ .push frame :: b)
    (ha : a.all Event.isSteady = true)
    (hb : b.all Event.isSteady = true) :
    Writes file blocks loops [(line, command)]
      (Event.codeLines file blocks.length a ++
        Event.codeLines file (blocks.length + 1) b)
      (frame :: blocks) loops := by
  have h := single hEvents
    (Event.stackAll_push ha hb frame blocks)
    (congrArg (loops + ·) (Event.loopsAll_push ha hb frame))
    (Event.rowsAll_push ha hb file frame blocks)
  rw [List.map_append] at h
  exact h

end Writes

theorem writes_plain
    {command : Command}
    (hPlain : command.form.blockRole = .plain)
    (file : Text)
    (blocks : List Frame)
    (loops line : Nat) :
    Writes file blocks loops [(line, command)]
      (Event.codeLines file blocks.length
        (command.events [] 0 line)) blocks loops := by
  have hSteady := Event.all_isSteady_of_all_isPlain
    (all_isPlain_events hPlain [] 0 line)
  exact .single
    (events_eq_of_plain hPlain blocks loops line)
    (Event.stackAll_of_steady hSteady blocks)
    (congrArg (loops + ·) (Event.loopsAll_of_steady hSteady))
    (Event.rowsAll_of_steady hSteady file blocks)

------------------------------------------------------------
-- Opening Blocks
------------------------------------------------------------

/- The block of a condition. -/
def branchFrame
    (opener : Text)
    (line : Nat)
    (chained : Bool) : Frame :=
  ⟨.conditional, opener, line, chained, false, []⟩

/- A condition, and the line that opens its branch. -/
def branchHead
    (line : Nat)
    (condition : Text) : List Event :=
  Event.condition line condition ++ [.write 0 .openOnSuccess]

theorem all_isSteady_branchHead
    (line : Nat)
    (condition : Text) :
    (branchHead line condition).all Event.isSteady = true := by
  rw [branchHead, List.all_append, Event.all_isSteady_condition]
  rfl

theorem openBranch_eq
    (line : Nat)
    (condition : Text)
    (frame : Frame) :
    Event.openBranch line condition frame =
      branchHead line condition ++ [.push frame] := by
  simp [Event.openBranch, branchHead]

/- The status is set by the condition, and tested behind it. -/
theorem codeLines_branchHead
    (file : Text)
    (depth line : Nat)
    (condition : Text) :
    Event.codeLines file depth (branchHead line condition) =
      Event.codeLines file depth
          (Event.condition line condition) ++
        [⟨depth + 1, "if (last_status == 0) \x7b"⟩] := by
  rw [branchHead, Event.codeLines_append,
    ← Line.render_openOnSuccess]
  rfl

theorem writes_ifOpen
    (opening : Statement)
    (condition file : Text)
    (blocks : List Frame)
    (loops : Nat) :
    Writes file blocks loops
      [opening.command (.ifOpen condition)]
      (Event.codeLines file blocks.length
          (Event.condition opening.line condition) ++
        [⟨blocks.length + 1, "if (last_status == 0) \x7b"⟩])
      (branchFrame "if" opening.line false :: blocks)
      loops := by
  have h := @Writes.single_push file blocks loops opening.line
    ⟨opening.text, .ifOpen condition⟩ _ _ _
    (openBranch_eq opening.line condition
      (branchFrame "if" opening.line false))
    (all_isSteady_branchHead opening.line condition) rfl
  refine h.congr ?_ rfl
  rw [codeLines_branchHead]
  exact List.append_nil _

/- The lines that leave a loop when its condition fails. -/
theorem codeLines_leave
    (file : Text)
    (depth : Nat) :
    Event.codeLines file depth
        [.write 0 .openOnFailure, .write 1 .leaveLoop,
         .write 0 .close] =
      [⟨depth + 1, "if (last_status != 0) \x7b"⟩,
       ⟨depth + 2, "break;"⟩, ⟨depth + 1, "\x7d"⟩] := by
  rw [← Line.render_openOnFailure]
  rfl

theorem writes_whileOpen
    (opening : Statement)
    (condition file : Text)
    (blocks : List Frame)
    (loops : Nat) :
    Writes file blocks loops
      [opening.command (.whileOpen condition)]
      (⟨blocks.length + 1, "for (;;) \x7b"⟩ ::
        (Event.codeLines file (blocks.length + 1)
            (Event.condition opening.line condition) ++
          [⟨blocks.length + 2, "if (last_status != 0) \x7b"⟩,
           ⟨blocks.length + 3, "break;"⟩,
           ⟨blocks.length + 2, "\x7d"⟩]))
      (⟨.loop, "while", opening.line, false, false, []⟩ ::
        blocks) loops := by
  let leave : List Event :=
    [.write 0 .openOnFailure, .write 1 .leaveLoop,
     .write 0 .close]
  have hSteady : (Event.condition opening.line condition ++
      leave).all Event.isSteady = true := by
    rw [List.all_append, Event.all_isSteady_condition]
    rfl
  have h := @Writes.single_push file blocks loops opening.line
    ⟨opening.text, .whileOpen condition⟩
    [.write 0 .openForever]
    (Event.condition opening.line condition ++ leave) _ rfl rfl
    hSteady
  refine h.congr ?_ rfl
  rw [Event.codeLines_append, codeLines_leave]
  rfl

/- The block of a loop over items. -/
def itemsFrame
    (line loops : Nat)
    (items : Option Text) : Frame :=
  Event.forFrame line
    (Event.freeItems (loops + 1) (BlockTree.templates items))

theorem writes_forOpen
    (opening : Statement)
    (var : Text)
    (items : Option Text)
    (place : CodePlace)
    {blocks : List Frame}
    (hDepth : place.depth = blocks.length) :
    Writes place.file blocks place.loops
      [opening.command (.forOpen var items)]
      ((BlockTree.openItems place var items).map
        GuardedLine.toCodeLine)
      (itemsFrame opening.line place.loops items :: blocks)
      (place.loops + BlockTree.itemLoops items) := by
  cases hWords : Word.split (items.getD []) with
  | nil =>
      have hTemplates : BlockTree.templates items = [] := by
        simp [BlockTree.templates, hWords]
      have hEvents : Command.events blocks place.loops
          opening.line ⟨opening.text, .forOpen var items⟩ =
            [.write 0 .openNever,
             .push (Event.forFrame opening.line [])] := by
        simp [events, Event.openFor, hWords]
      have h := @Writes.single_push place.file blocks
        place.loops opening.line
        ⟨opening.text, .forOpen var items⟩
        [.write 0 .openNever] [] _ hEvents rfl rfl
      simpa [Statement.command, BlockTree.openItems_eq,
        BlockTree.itemLoops, hTemplates, hDepth, itemsFrame,
        Event.freeItems, Event.codeLines] using h
  | cons word words =>
      have hTemplates : BlockTree.templates items =
          (word :: words).map Template.ofWord := by
        simp [BlockTree.templates, hWords]
      have hEvents : Command.events blocks place.loops
          opening.line ⟨opening.text, .forOpen var items⟩ =
            Event.openForItems opening.line (place.loops + 1)
              var (BlockTree.templates items) := by
        simp [events, Event.openFor, hWords, hTemplates]
      refine (Writes.single hEvents rfl rfl rfl).congr ?_ ?_
      · simp [BlockTree.openItems_eq, hTemplates, hDepth,
          Event.openForItems, Event.rowsAll, Event.rows,
          Event.stack, Event.codeLines, CodePlace.inside]
      · simp [BlockTree.itemLoops, hTemplates, Event.loopsAll,
          Event.openForItems, Event.loops]

------------------------------------------------------------
-- Closing Blocks
------------------------------------------------------------

/- Closing the innermost block writes its brace and its epilogue. -/
theorem rowsAll_closeAs
    (file : Text)
    (line : Nat)
    (keyword : Text)
    {frame : Frame}
    {kind : BlockKind}
    (hKind : frame.kind = kind)
    (rest : List Frame) :
    Event.rowsAll file (frame :: rest)
        (Event.closeAs line keyword kind frame) =
      (Event.closeFrame frame).flatMap
        (Event.rows file rest.length) := by
  rw [Event.closeAs, if_pos hKind]
  exact Event.rowsAll_of_steady
    (Event.all_isSteady_closeFrame frame) file rest

theorem loopsAll_closeAs
    (line : Nat)
    (keyword : Text)
    {frame : Frame}
    {kind : BlockKind}
    (hKind : frame.kind = kind) :
    Event.loopsAll (Event.closeAs line keyword kind frame) =
      0 := by
  have hFrame := Event.loopsAll_of_steady
    (Event.all_isSteady_closeFrame frame)
  rw [Event.closeAs, if_pos hKind]
  simpa [Event.loopsAll, Event.loops] using hFrame

theorem writes_loopClose
    (closing : Statement)
    (file : Text)
    {frame : Frame}
    (hKind : frame.kind = .loop)
    (rest : List Frame)
    (loops : Nat) :
    Writes file (frame :: rest) loops
      [closing.command .loopClose]
      (Event.codeLines file rest.length
        (Event.closeFrame frame)) rest loops :=
  .single rfl
    (Event.stackAll_closeAs closing.line "done" .loop frame
      rest)
    (congrArg (loops + ·)
      (loopsAll_closeAs closing.line "done" hKind))
    (rowsAll_closeAs file closing.line "done" hKind rest)

end Command

/- So many closing braces, the innermost first. -/
def Row.closers
    (depth : Nat) : Nat → List Row
  | 0 => []
  | count + 1 =>
      ⟨depth + count + 1, .close⟩ :: closers depth count

/- So many lines with a closing brace, the innermost first. -/
def CodeLine.closers
    (depth : Nat) : Nat → List CodeLine
  | 0 => []
  | count + 1 =>
      ⟨depth + count + 1, "\x7d"⟩ :: closers depth count

theorem Row.map_codeLine_closers
    (depth count : Nat) :
    (closers depth count).map codeLine =
      CodeLine.closers depth count := by
  induction count with
  | zero => rfl
  | succ count ih =>
      rw [closers, CodeLine.closers, List.map_cons, ih]
      rfl

/-
  The blocks of one conditional on top of others, with so
  many further conditions.
-/
inductive Frame.Chain
    (base : List Frame) : Nat → List Frame → Prop where
  | first
      {frame : Frame}
      (hKind : frame.kind = .conditional)
      (hChained : frame.chained = false)
      (hEpilogue : frame.epilogue = []) :
      Chain base 0 (frame :: base)
  | further
      {count : Nat}
      {frame : Frame}
      {blocks : List Frame}
      (hKind : frame.kind = .conditional)
      (hChained : frame.chained = true)
      (hEpilogue : frame.epilogue = [])
      (hRest : Chain base count blocks) :
      Chain base (count + 1) (frame :: blocks)

theorem Frame.Chain.length_eq
    {base blocks : List Frame}
    {count : Nat}
    (h : Chain base count blocks) :
    blocks.length = base.length + count + 1 := by
  induction h with
  | first => rfl
  | further _ _ _ _ ih =>
      rw [List.length_cons, ih]
      rfl

namespace Event

/- Closing a chain closes each of its braces. -/
theorem closeChain_eq
    {base blocks : List Frame}
    {count : Nat}
    (h : Frame.Chain base count blocks)
    (file : Text) :
    stackAll blocks (closeChain blocks) = base ∧
      loopsAll (closeChain blocks) = 0 ∧
      rowsAll file blocks (closeChain blocks) =
        Row.closers base.length (count + 1) := by
  induction h with
  | @first frame hKind hChained hEpilogue =>
      have hEvents : closeChain (frame :: base) =
          [.pop, .write 0 .close] := by
        simp [closeChain, closeFrame, lines, hEpilogue,
          hChained]
      rw [hEvents]
      exact ⟨rfl, rfl, rfl⟩
  | @further count frame blocks hKind hChained hEpilogue
      hRest ih =>
      have hEvents : closeChain (frame :: blocks) =
          [.pop, .write 0 .close] ++ closeChain blocks := by
        simp [closeChain, closeFrame, lines, hEpilogue,
          hChained]
      rw [hEvents, stackAll_append, loopsAll_append,
        rowsAll_append]
      refine ⟨ih.1, ?_, ?_⟩
      · rw [ih.2.1]
        rfl
      · have hRows := ih.2.2
        have hLength := hRest.length_eq
        rw [Row.closers, ← hRows]
        simp only [rowsAll, rows, stack, stackAll,
          List.tail_cons, List.foldl_cons, List.foldl_nil,
          hLength]
        rfl

/- The keyword of a conditional closes its whole chain. -/
theorem closeIf_eq_closeChain
    {base blocks : List Frame}
    {count : Nat}
    (h : Frame.Chain base count blocks)
    (line : Nat) :
    closeIf line blocks = closeChain blocks := by
  cases h with
  | first hKind hChained hEpilogue =>
      simp [closeIf, closeAs, closeChain, hKind, hChained]
  | further hKind hChained hEpilogue hRest =>
      simp [closeIf, closeAs, closeChain, hKind, hChained]

end Event

theorem Command.writes_ifClose
    (closing : Statement)
    (file : Text)
    {base blocks : List Frame}
    {count : Nat}
    (h : Frame.Chain base count blocks)
    (loops : Nat) :
    Writes file blocks loops [closing.command .ifClose]
      (CodeLine.closers base.length (count + 1)) base loops := by
  have hChain := Event.closeChain_eq h file
  rw [← Row.map_codeLine_closers]
  exact .single
    (Event.closeIf_eq_closeChain h closing.line)
    hChain.1 (congrArg (loops + ·) hChain.2.1) hChain.2.2

------------------------------------------------------------
-- Further Branches
------------------------------------------------------------

theorem Frame.Chain.inElse
    {base rest : List Frame}
    {count : Nat}
    {top : Frame}
    (h : Chain base count (top :: rest)) :
    Chain base count ({ top with inElse := true } :: rest) := by
  cases h with
  | first hKind hChained hEpilogue =>
      exact .first hKind hChained hEpilogue
  | further hKind hChained hEpilogue hRest =>
      exact .further hKind hChained hEpilogue hRest

namespace Command

theorem writes_elseBranch
    (opening : Statement)
    (file : Text)
    {top : Frame}
    (hElse : top.takesElse = true)
    (rest : List Frame)
    (loops : Nat) :
    Writes file (top :: rest) loops
      [opening.command .elseBranch]
      [⟨rest.length + 1, "\x7d else \x7b"⟩]
      ({ top with inElse := true } :: rest) loops := by
  have hEvents : Command.events (top :: rest) loops
      opening.line ⟨opening.text, .elseBranch⟩ =
        [.pop, .write 0 .openElse,
         .push { top with inElse := true }] := by
    simp [events, Event.openElse, Event.continueElse, hElse]
  exact .single hEvents rfl rfl rfl

theorem writes_elifBranch
    (opening : Statement)
    (condition file : Text)
    {top : Frame}
    (hElse : top.takesElse = true)
    (rest : List Frame)
    (loops : Nat) :
    Writes file (top :: rest) loops
      [opening.command (.elifBranch condition)]
      (⟨rest.length + 1, "\x7d else \x7b"⟩ ::
        (Event.codeLines file (rest.length + 1)
            (Event.condition opening.line condition) ++
          [⟨rest.length + 2, "if (last_status == 0) \x7b"⟩]))
      (branchFrame "elif" opening.line true ::
        { top with inElse := true } :: rest) loops := by
  have hEvents : Command.events (top :: rest) loops
      opening.line ⟨opening.text, .elifBranch condition⟩ =
        [.pop, .write 0 .openElse,
         .push { top with inElse := true }] ++
        (branchHead opening.line condition ++
          [.push (branchFrame "elif" opening.line true)]) := by
    rw [← openBranch_eq]
    simp [events, Event.openElif, Event.continueElse, hElse,
      branchFrame]
  have hHead :=
    all_isSteady_branchHead opening.line condition
  have hRows := Event.rowsAll_push hHead List.all_nil file
    (branchFrame "elif" opening.line true)
    ({ top with inElse := true } :: rest)
  refine (Writes.single hEvents ?_ ?_ rfl).congr ?_ rfl
  · rw [Event.stackAll_append]
    exact Event.stackAll_push hHead rfl _ _
  · rw [Event.loopsAll_append,
      Event.loopsAll_push hHead List.all_nil]
    rfl
  · rw [Event.rowsAll_append, List.map_append,
      ← codeLines_branchHead]
    rw [List.flatMap_nil, List.append_nil] at hRows
    exact congrArg
      (⟨rest.length + 1, "\x7d else \x7b"⟩ :: ·)
      (congrArg (List.map Row.codeLine) hRows)

end Command

------------------------------------------------------------
-- Whole Trees
------------------------------------------------------------

namespace BlockTree

open Command

/-
  The statements of a tree write its code.  Those of the
  branches of a conditional also write the closing braces of
  all its conditions.
-/
def Unfolds : (part : TreePart) → BlockTree part → Prop
  | .branches, tree =>
      ∀ (place : CodePlace) (base rest : List Frame)
        (count : Nat) (top : Frame),
        Frame.Chain base count (top :: rest) →
        top.takesElse = true →
        place.depth = rest.length + 1 →
        Writes place.file (top :: rest) place.loops
          tree.statements
          ((tree.code place).map GuardedLine.toCodeLine ++
            CodeLine.closers base.length (count + 1))
          base (place.loops + tree.loops)
  | _, tree =>
      ∀ (place : CodePlace) (blocks : List Frame),
        place.depth = blocks.length →
        Writes place.file blocks place.loops tree.statements
          ((tree.code place).map GuardedLine.toCodeLine)
          blocks (place.loops + tree.loops)

theorem unfolds
    {part : TreePart}
    (tree : BlockTree part) :
    Unfolds part tree := by
  induction tree with
  | empty =>
      intro place blocks hDepth
      exact .nil _ _ _
  | sequence first rest hFirst hRest =>
      intro place blocks hDepth
      refine ((hFirst place blocks hDepth).append
        (hRest (place.behind first) blocks hDepth)).congr ?_ ?_
      · simp [code]
      · exact Nat.add_assoc _ _ _
  | plain line command hPlain =>
      intro place blocks hDepth
      refine (writes_plain hPlain place.file blocks place.loops
        line).congr ?_ rfl
      simp [code, hDepth]
  | conditional opening condition body branches hBody
      hBranches =>
      intro place blocks hDepth
      have hOpen := writes_ifOpen opening condition
        place.file blocks place.loops
      have hInside := hBody place.onSuccess
        (branchFrame "if" opening.line false :: blocks)
        (congrArg (· + 1) hDepth)
      have hRest := hBranches (place.onFailure.behind body)
        blocks blocks 0 (branchFrame "if" opening.line false)
        (.first rfl rfl rfl) rfl (congrArg (· + 1) hDepth)
      refine (hOpen.append (hInside.append hRest)).congr ?_ ?_
      · simp [code, hDepth, CodeLine.closers]
      · exact Nat.add_assoc _ _ _
  | whileLoop opening condition body closing hBody =>
      intro place blocks hDepth
      have hOpen := writes_whileOpen opening condition
        place.file blocks place.loops
      have hInside := hBody (place.inside 0)
        (⟨.loop, "while", opening.line, false, false, []⟩ ::
          blocks) (congrArg (· + 1) hDepth)
      have hKind : Frame.kind
          ⟨.loop, "while", opening.line, false, false, []⟩ =
            .loop := rfl
      have hClose := writes_loopClose closing place.file hKind
        blocks (place.loops + body.loops)
      have hBrace : Event.codeLines place.file blocks.length
          [.write 0 .close] =
            [⟨blocks.length + 1, "\x7d"⟩] := rfl
      refine (hOpen.append (hInside.append hClose)).congr ?_ rfl
      simp [code, hDepth, hBrace, Event.closeFrame, Event.lines,
        CodePlace.inside]
  | forLoop opening var items body closing hBody =>
      intro place blocks hDepth
      have hOpen :=
        writes_forOpen opening var items place hDepth
      have hInside := hBody (place.inside (itemLoops items))
        (itemsFrame opening.line place.loops items :: blocks)
        (congrArg (· + 1) hDepth)
      have hKind : (itemsFrame opening.line place.loops
          items).kind = .loop := rfl
      have hClose := writes_loopClose closing place.file hKind
        blocks (place.loops + itemLoops items + body.loops)
      refine (hOpen.append (hInside.append hClose)).congr ?_ ?_
      · simp [code, closeItems_eq, hDepth, Event.closeFrame,
          itemsFrame, Event.forFrame]
      · exact Nat.add_assoc _ _ _
  | elif opening condition body branches hBody hBranches =>
      intro place base rest count top hChain hElse hDepth
      have hOpen := writes_elifBranch opening condition
        place.file hElse rest place.loops
      have hInside := hBody place.onSuccess
        (branchFrame "elif" opening.line true ::
          { top with inElse := true } :: rest)
        (congrArg (· + 1) hDepth)
      have hRest := hBranches (place.onFailure.behind body)
        base ({ top with inElse := true } :: rest) (count + 1)
        (branchFrame "elif" opening.line true)
        (.further rfl rfl rfl hChain.inElse) rfl
        (congrArg (· + 1) hDepth)
      have hLength : rest.length = base.length + count := by
        simpa using hChain.length_eq
      refine (hOpen.append (hInside.append hRest)).congr ?_ ?_
      · simp [code, hDepth, hLength, CodePlace.enterElse,
          CodeLine.closers, Nat.add_assoc]
      · exact Nat.add_assoc _ _ _
  | otherwise opening body closing hBody =>
      intro place base rest count top hChain hElse hDepth
      have hOpen := writes_elseBranch opening place.file hElse
        rest place.loops
      have hInside := hBody place
        ({ top with inElse := true } :: rest) hDepth
      have hClose := writes_ifClose closing place.file
        hChain.inElse (place.loops + body.loops)
      refine (hOpen.append (hInside.append hClose)).congr ?_ rfl
      simp [code, hDepth, CodePlace.enterElse]
  | fi closing =>
      intro place base rest count top hChain hElse hDepth
      exact writes_ifClose closing place.file hChain place.loops

------------------------------------------------------------
-- The End of a Conditional
------------------------------------------------------------

/- The statements of a conditional before the keyword that closes it. -/
def front
    {part : TreePart} : BlockTree part → List (Nat × Command)
  | .conditional opening condition body branches =>
      opening.command (.ifOpen condition) ::
        (body.statements ++ branches.front)
  | .elif opening condition body branches =>
      opening.command (.elifBranch condition) ::
        (body.statements ++ branches.front)
  | .otherwise opening body _ =>
      opening.command .elseBranch :: body.statements
  | _ => []

/- The keyword that closes branches. -/
def closing : BlockTree .branches → Statement
  | .elif _ _ _ branches => branches.closing
  | .otherwise _ _ closing => closing
  | .fi closing => closing

theorem statements_eq_front_append :
    (branches : BlockTree .branches) →
      branches.statements =
        branches.front ++ [branches.closing.command .ifClose]
  | .elif opening condition body branches => by
      have h := branches.statements_eq_front_append
      simp [statements, front, closing, h]
  | .otherwise opening body closing => by
      simp [statements, front, BlockTree.closing]
  | .fi closing => by
      simp [statements, front, BlockTree.closing]

/- Before it is closed, a conditional has a block for every condition. -/
theorem chain_of_front
    (file : Text)
    (base : List Frame) :
    (branches : BlockTree .branches) →
      (rest : List Frame) → (count : Nat) → (top : Frame) →
      (loops : Nat) →
      Frame.Chain base count (top :: rest) →
      top.takesElse = true →
      ∃ lines blocks loops',
        Command.Writes file (top :: rest) loops branches.front
          lines blocks loops' ∧
        Frame.Chain base (count + branches.elifs) blocks
  | .elif opening condition body branches,
      rest, count, top, loops, hChain, hElse => by
      let place : CodePlace :=
        ⟨file, rest.length + 2, loops, 0, []⟩
      have hOpen := Command.writes_elifBranch opening condition
        file hElse rest loops
      have hInside := body.unfolds place
        (Command.branchFrame "elif" opening.line true ::
          { top with inElse := true } :: rest) rfl
      rcases chain_of_front file base branches
          ({ top with inElse := true } :: rest) (count + 1)
          (Command.branchFrame "elif" opening.line true)
          (loops + body.loops)
          (.further rfl rfl rfl hChain.inElse) rfl
        with ⟨lines, blocks, loops', hRest, hBlocks⟩
      rw [Nat.add_assoc, Nat.add_comm 1] at hBlocks
      exact ⟨_, blocks, loops',
        hOpen.append (hInside.append hRest), hBlocks⟩
  | .otherwise opening body closing,
      rest, count, top, loops, hChain, hElse => by
      let place : CodePlace :=
        ⟨file, rest.length + 1, loops, 0, []⟩
      have hOpen := Command.writes_elseBranch opening file hElse
        rest loops
      have hInside := body.unfolds place
        ({ top with inElse := true } :: rest) rfl
      exact ⟨_, _, _, hOpen.append hInside, hChain.inElse⟩
  | .fi closing, rest, count, top, loops, hChain, hElse =>
      ⟨[], _, _, .nil _ _ _, hChain⟩

end BlockTree

end ShellToC
