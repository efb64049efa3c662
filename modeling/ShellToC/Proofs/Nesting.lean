import ShellToC.Proofs.Braces
import ShellToC.Proofs.Growth

/-
  This file shows that the braces of a program keep step
  with the blocks of its script.

  Every event moves between nestings: so many blocks are
  open, and so many scopes inside of the innermost one.
  Each open brace of the text belongs to one of these,
  however badly the script is nested.

  Key definitions include:
    * `Row.Leads`
    * `Row.LeadsAll`
    * `Nesting`
    * `Event.Nests`
    * `Event.NestsAll`
    * `Draft.IsNested`

  Main declarations:
    * `Command.nestsAll_events`
    * `Event.NestsAll.leadsAll_rowsAll`
    * `Draft.IsNested.addCommands`
    * `Draft.unclosed_body_eq_depth`
-/

namespace ShellToC

open Lexeme

------------------------------------------------------------
-- Rows
------------------------------------------------------------

namespace Row

/-
  The row leads from one number of open braces to another.
  It is indented by one unit more than there are open braces
  when those that it closes are closed.
-/
structure Leads
    (before : Nat)
    (row : Row)
    (behind : Nat) : Prop where
  legible : row.line.IsLegible
  closes_le : row.line.closes ≤ before
  level : behind + row.line.closes = before + row.line.opens
  indented : row.line.isMarker = false →
    row.indent + row.line.closes = before + 1

/- Rows lead from one number of open braces to another. -/
inductive LeadsAll : Nat → List Row → Nat → Prop where
  | nil (n : Nat) : LeadsAll n [] n
  | cons
      {before between behind : Nat}
      {row : Row}
      {rows : List Row}
      (hFirst : Leads before row between)
      (hRest : LeadsAll between rows behind) :
      LeadsAll before (row :: rows) behind

namespace LeadsAll

theorem append
    {before between behind : Nat}
    {a b : List Row}
    (ha : LeadsAll before a between)
    (hb : LeadsAll between b behind) :
    LeadsAll before (a ++ b) behind := by
  induction ha with
  | nil => exact hb
  | cons hFirst _ ih => exact .cons hFirst (ih hb)

theorem split
    {before behind : Nat}
    {a b : List Row}
    (h : LeadsAll before (a ++ b) behind) :
    ∃ between, LeadsAll before a between ∧
      LeadsAll between b behind := by
  induction a generalizing before with
  | nil => exact ⟨before, .nil before, h⟩
  | cons row a ih =>
      cases h with
      | cons hFirst hRest =>
          rcases ih hRest with ⟨between, ha, hb⟩
          exact ⟨between, .cons hFirst ha, hb⟩

theorem legible
    {before behind : Nat}
    {rows : List Row}
    (h : LeadsAll before rows behind) :
    ∀ row ∈ rows, row.line.IsLegible := by
  induction h with
  | nil => simp
  | cons hFirst _ ih =>
      intro row hRow
      rcases List.mem_cons.mp hRow with rfl | hRow
      · exact hFirst.legible
      · exact ih row hRow

/- The open braces of rows are counted by their levels. -/
theorem unclosed_lexemes
    {before behind : Nat}
    {rows : List Row}
    (h : LeadsAll before rows behind) :
    unclosed (rows.flatMap (·.line.lexemes)) =
        (behind : Int) - before ∧
      StaysAbove before (rows.flatMap (·.line.lexemes)) := by
  induction h with
  | nil n =>
      constructor
      · simp
      · exact staysAbove_nil.mpr (Int.natCast_nonneg n)
  | @cons before between behind row rows hFirst _ ih =>
      have hLine := Line.unclosed_lexemes hFirst.legible
      have hLevel := hFirst.level
      have hCloses := hFirst.closes_le
      rw [List.flatMap_cons]
      constructor
      · rw [unclosed_append, hLine.1, ih.1]
        omega
      · refine staysAbove_append ?_ ?_
        · intro part hPart
          have hAbove := hLine.2 part hPart
          omega
        · have hBetween :
              (before : Int) + unclosed row.line.lexemes =
                between := by
            rw [hLine.1]
            omega
          rw [hBetween]
          exact ih.2

end LeadsAll

------------------------------------------------------------
-- Reading Rows
------------------------------------------------------------

theorem isAllBlank_repeated
    {unit : Text}
    (hUnit : unit.isAllBlank = true)
    (n : Nat) :
    (Text.repeated n unit).isAllBlank = true := by
  have hChars := List.all_eq_true.mp hUnit
  refine List.all_eq_true.mpr ?_
  intro c hc
  rcases List.mem_flatten.mp hc with ⟨text, hText, hc⟩
  rw [List.eq_of_mem_replicate hText] at hc
  exact hChars c hc

/- The indentation and the line feed of a row hold no lexemes. -/
theorem readsWhole_render
    {unit : Text}
    (hUnit : unit.isAllBlank = true)
    {row : Row}
    (h : row.line.IsLegible) :
    ReadsWhole (row.render unit) row.line.lexemes := by
  have hIndent := readsWhole_of_isAllBlank
    (isAllBlank_repeated hUnit row.indent)
  have hLine := Line.readsWhole_render h
  have hFeed : ReadsWhole ['\n'] [] :=
    readsWhole_of_isAllBlank (by decide)
  simpa [render] using (hIndent.append hLine).append hFeed

/- Rows are read one after the other, whatever follows them. -/
theorem readsWhole_flatMap_render
    {unit : Text}
    (hUnit : unit.isAllBlank = true)
    {rows : List Row}
    (h : ∀ row ∈ rows, row.line.IsLegible) :
    ReadsWhole (rows.flatMap (render unit))
      (rows.flatMap (·.line.lexemes)) :=
  readsWhole_flatMap fun row hRow =>
    readsWhole_render hUnit (h row hRow)

/- The lexemes of rows are those of their lines. -/
theorem ofText_flatMap_render
    {unit : Text}
    (hUnit : unit.isAllBlank = true)
    {rows : List Row}
    (h : ∀ row ∈ rows, row.line.IsLegible) :
    ofText (rows.flatMap (render unit)) =
      rows.flatMap (·.line.lexemes) :=
  (readsWhole_flatMap_render hUnit h).ofText_eq

end Row

------------------------------------------------------------
-- Nestings
------------------------------------------------------------

/-
  How many blocks of the script are open, and how many
  braces inside of the innermost one.
-/
structure Nesting where
  blocks : Nat
  scopes : Nat
  deriving DecidableEq, Repr

/- The number of open braces. -/
def Nesting.level
    (nesting : Nesting) : Nat :=
  nesting.blocks + nesting.scopes

/- A line that neither opens nor closes a brace. -/
structure Line.IsLevel
    (line : Line) : Prop where
  legible : line.IsLegible
  closes_eq : line.closes = 0
  opens_eq : line.opens = 0

/- A block that leaves nothing open behind its end. -/
def Frame.IsLevel
    (frame : Frame) : Prop :=
  ∀ line ∈ frame.epilogue, line.IsLevel

namespace Event

/-
  The event leads from one nesting to another.  Opening a
  block takes over a brace that is open already, and closing
  a block leaves its brace open.
-/
inductive Nests : Nesting → Event → Nesting → Prop where
  | write
      (depth extra : Nat)
      (line : Line)
      (hLegible : line.IsLegible) :
      Nests ⟨depth, extra + line.closes⟩
        (.write extra line) ⟨depth, extra + line.opens⟩
  | fail
      (nesting : Nesting)
      (line : Nat)
      (fault : Fault) :
      Nests nesting (.fail line fault) nesting
  | warn
      (nesting : Nesting)
      (line : Nat)
      (message : Text) :
      Nests nesting (.warn line message) nesting
  | push
      (depth scopes : Nat)
      {frame : Frame}
      (hFrame : frame.IsLevel) :
      Nests ⟨depth, scopes + 1⟩ (.push frame)
        ⟨depth + 1, scopes⟩
  | pop
      (depth scopes : Nat) :
      Nests ⟨depth + 1, scopes⟩ .pop ⟨depth, scopes + 1⟩
  | countLoop
      (nesting : Nesting) :
      Nests nesting .countLoop nesting

/- Events lead from one nesting to another. -/
inductive NestsAll :
    Nesting → List Event → Nesting → Prop where
  | nil (nesting : Nesting) : NestsAll nesting [] nesting
  | cons
      {before between behind : Nesting}
      {event : Event}
      {events : List Event}
      (hFirst : Nests before event between)
      (hRest : NestsAll between events behind) :
      NestsAll before (event :: events) behind

namespace NestsAll

theorem append
    {before between behind : Nesting}
    {a b : List Event}
    (ha : NestsAll before a between)
    (hb : NestsAll between b behind) :
    NestsAll before (a ++ b) behind := by
  induction ha with
  | nil => exact hb
  | cons hFirst _ ih => exact .cons hFirst (ih hb)

theorem single
    {before behind : Nesting}
    {event : Event}
    (h : Nests before event behind) :
    NestsAll before [event] behind :=
  .cons h (.nil behind)

end NestsAll

------------------------------------------------------------
-- What Nested Events Write
------------------------------------------------------------

/- One nested event writes rows from level to level. -/
theorem Nests.leadsAll_rows
    {before behind : Nesting}
    {event : Event}
    (h : Nests before event behind)
    {file : Text}
    (hFile : Text.occursIn "*/" file = false) :
    Row.LeadsAll before.level
      (event.rows file before.blocks) behind.level := by
  cases h with
  | write depth extra line hLegible =>
      refine .cons ⟨hLegible, ?_, ?_, ?_⟩ (.nil _)
      · simp only [Nesting.level]
        omega
      · simp only [Nesting.level]
        omega
      · intro _
        simp only [Nesting.level]
        omega
  | fail line fault =>
      refine .cons ⟨hFile, ?_, ?_, ?_⟩ (.nil _)
      · exact Nat.zero_le _
      · rfl
      · intro hMarker
        cases hMarker
  | warn line message => exact .nil _
  | push depth scopes hFrame =>
      have hLevel : Nesting.level ⟨depth, scopes + 1⟩ =
          Nesting.level ⟨depth + 1, scopes⟩ := by
        simp only [Nesting.level]
        omega
      rw [hLevel]
      exact .nil _
  | pop depth scopes =>
      have hLevel : Nesting.level ⟨depth + 1, scopes⟩ =
          Nesting.level ⟨depth, scopes + 1⟩ := by
        simp only [Nesting.level]
        omega
      rw [hLevel]
      exact .nil _
  | countLoop => exact .nil _

/- One nested event keeps count of the open blocks. -/
theorem Nests.length_stack
    {before behind : Nesting}
    {event : Event}
    (h : Nests before event behind)
    {blocks : List Frame}
    (hBlocks : blocks.length = before.blocks) :
    (event.stack blocks).length = behind.blocks := by
  cases h with
  | push depth scopes hFrame =>
      simpa [stack] using hBlocks
  | pop depth scopes =>
      rw [stack, List.length_tail, hBlocks]
      rfl
  | _ => exact hBlocks

theorem Nests.isLevel_of_mem_stack
    {before behind : Nesting}
    {event : Event}
    (h : Nests before event behind)
    {blocks : List Frame}
    (hBlocks : ∀ frame ∈ blocks, frame.IsLevel) :
    ∀ frame ∈ event.stack blocks, frame.IsLevel := by
  cases h with
  | push depth scopes hFrame =>
      intro frame hMem
      rcases List.mem_cons.mp hMem with rfl | hMem
      · exact hFrame
      · exact hBlocks frame hMem
  | pop depth scopes =>
      intro frame hMem
      exact hBlocks frame (List.mem_of_mem_tail hMem)
  | _ => exact hBlocks

/- Nested events write rows from level to level. -/
theorem NestsAll.leadsAll_rowsAll
    {before behind : Nesting}
    {events : List Event}
    (h : NestsAll before events behind)
    {file : Text}
    (hFile : Text.occursIn "*/" file = false)
    {blocks : List Frame}
    (hBlocks : blocks.length = before.blocks) :
    Row.LeadsAll before.level (rowsAll file blocks events)
      behind.level := by
  induction h generalizing blocks with
  | nil => exact .nil _
  | cons hFirst _ ih =>
      have hRows := hFirst.leadsAll_rows hFile
      rw [← hBlocks] at hRows
      exact hRows.append (ih (hFirst.length_stack hBlocks))

theorem NestsAll.length_stackAll
    {before behind : Nesting}
    {events : List Event}
    (h : NestsAll before events behind)
    {blocks : List Frame}
    (hBlocks : blocks.length = before.blocks) :
    (stackAll blocks events).length = behind.blocks := by
  induction h generalizing blocks with
  | nil => exact hBlocks
  | cons hFirst _ ih => exact ih (hFirst.length_stack hBlocks)

theorem NestsAll.isLevel_of_mem_stackAll
    {before behind : Nesting}
    {events : List Event}
    (h : NestsAll before events behind)
    {blocks : List Frame}
    (hBlocks : ∀ frame ∈ blocks, frame.IsLevel) :
    ∀ frame ∈ stackAll blocks events, frame.IsLevel := by
  induction h generalizing blocks with
  | nil => exact hBlocks
  | cons hFirst _ ih =>
      exact ih (hFirst.isLevel_of_mem_stack hBlocks)

------------------------------------------------------------
-- Scopes
------------------------------------------------------------

theorem nestsAll_lines
    (depth extra : Nat)
    {ls : List Line}
    (h : ∀ line ∈ ls, line.IsLevel) :
    NestsAll ⟨depth, extra⟩ (lines extra ls)
      ⟨depth, extra⟩ := by
  induction ls with
  | nil => exact .nil _
  | cons line ls ih =>
      have hLine := h line (by simp)
      have hFirst := Nests.write depth extra line hLine.legible
      rw [hLine.closes_eq, hLine.opens_eq] at hFirst
      exact .cons hFirst
        (ih fun line hLine => h line (by simp [hLine]))

theorem nestsAll_inScope
    (depth : Nat)
    {ls : List Line}
    (h : ∀ line ∈ ls, line.IsLevel) :
    NestsAll ⟨depth, 0⟩ (inScope ls) ⟨depth, 0⟩ := by
  have hOpen : Nests ⟨depth, 0⟩ (.write 0 .openScope)
      ⟨depth, 1⟩ :=
    .write depth 0 .openScope trivial
  have hClose : Nests ⟨depth, 1⟩ (.write 0 .close)
      ⟨depth, 0⟩ :=
    .write depth 0 .close trivial
  exact (NestsAll.cons hOpen (nestsAll_lines depth 1 h)).append
    (.single hClose)

/- Values are declared and freed by level lines. -/
theorem isLevel_declarations_releases
    {values : List Value}
    {body : List Line}
    (hBody : ∀ line ∈ body, line.IsLevel) :
    ∀ line ∈ values.flatMap Value.declarations ++ body ++
      values.flatMap Value.releases, line.IsLevel := by
  intro line hLine
  rcases List.mem_append.mp hLine with hLine | hLine
  · rcases List.mem_append.mp hLine with hLine | hLine
    · rcases List.mem_flatMap.mp hLine with ⟨value, _, hLine⟩
      cases value with
      | borrowed e => cases hLine
      | built temp call =>
          rw [List.mem_singleton.mp hLine]
          exact ⟨trivial, rfl, rfl⟩
    · exact hBody line hLine
  · rcases List.mem_flatMap.mp hLine with ⟨value, _, hLine⟩
    cases value with
    | borrowed e => cases hLine
    | built temp call =>
        rw [List.mem_singleton.mp hLine]
        exact ⟨trivial, rfl, rfl⟩

theorem nestsAll_withValuesInScope
    (depth : Nat)
    (values : List Value)
    {body : List Line}
    (hBody : ∀ line ∈ body, line.IsLevel) :
    NestsAll ⟨depth, 0⟩ (withValuesInScope values body)
      ⟨depth, 0⟩ :=
  nestsAll_inScope depth (isLevel_declarations_releases hBody)

theorem nestsAll_withValues
    (depth : Nat)
    (values : List Value)
    {body : List Line}
    (hBody : ∀ line ∈ body, line.IsLevel) :
    NestsAll ⟨depth, 0⟩ (withValues values body)
      ⟨depth, 0⟩ := by
  unfold withValues
  split
  · exact nestsAll_lines depth 0 hBody
  · exact nestsAll_withValuesInScope depth values hBody

theorem nestsAll_run
    (depth : Nat)
    (command : Text) :
    NestsAll ⟨depth, 0⟩ (run command) ⟨depth, 0⟩ := by
  refine nestsAll_withValues depth _ ?_
  intro line hLine
  rw [List.mem_singleton.mp hLine]
  exact ⟨trivial, rfl, rfl⟩

------------------------------------------------------------
-- Conditions
------------------------------------------------------------

theorem nestsAll_test
    (depth line : Nat)
    (expr : Text) :
    NestsAll ⟨depth, 0⟩ (test line expr) ⟨depth, 0⟩ := by
  unfold test
  split
  · rename_i e _
    exact .single (.write depth 0 (.setStatus e) trivial)
  · exact .cons (.fail _ _ _)
      (.single (.write depth 0 .failed trivial))

theorem nestsAll_check
    (depth line : Nat)
    (text : Text) :
    NestsAll ⟨depth, 0⟩ (check line text) ⟨depth, 0⟩ := by
  unfold check
  split
  · exact nestsAll_test depth line _
  · split
    · exact .single (.write depth 0 .succeed trivial)
    · split
      · exact .single (.write depth 0 .failed trivial)
      · exact nestsAll_run depth text

theorem nestsAll_condition
    (depth line : Nat)
    (text : Text) :
    NestsAll ⟨depth, 0⟩ (condition line text)
      ⟨depth, 0⟩ := by
  unfold condition
  split
  · exact (nestsAll_check depth line _).append
      (.single (.write depth 0 .invertStatus trivial))
  · exact nestsAll_check depth line text

------------------------------------------------------------
-- Blocks
------------------------------------------------------------

theorem nestsAll_openBranch
    (depth line : Nat)
    (cond : Text)
    {frame : Frame}
    (hFrame : frame.IsLevel) :
    NestsAll ⟨depth, 0⟩ (openBranch line cond frame)
      ⟨depth + 1, 0⟩ := by
  have hOpen : Nests ⟨depth, 0⟩ (.write 0 .openOnSuccess)
      ⟨depth, 1⟩ :=
    .write depth 0 .openOnSuccess trivial
  exact (nestsAll_condition depth line cond).append
    (.cons hOpen (.single (.push depth 0 hFrame)))

/- A block that goes over to its `else` branch stays open. -/
theorem nestsAll_continueElse
    (line : Nat)
    (keyword : Text)
    {blocks : List Frame}
    (hBlocks : ∀ frame ∈ blocks, frame.IsLevel)
    {next : List Event}
    {depth : Nat}
    (hNext : NestsAll ⟨blocks.length, 0⟩ next ⟨depth, 0⟩) :
    ∃ behind, NestsAll ⟨blocks.length, 0⟩
      (continueElse line keyword blocks next)
      ⟨behind, 0⟩ := by
  cases blocks with
  | nil => exact ⟨0, .single (.fail _ _ _)⟩
  | cons frame rest =>
      have hFrame := hBlocks frame (by simp)
      have hPop : Nests ⟨rest.length + 1, 0⟩ .pop
          ⟨rest.length, 1⟩ :=
        .pop rest.length 0
      simp only [continueElse]
      split
      · have hElse : Nests ⟨rest.length, 1⟩
            (.write 0 .openElse) ⟨rest.length, 1⟩ :=
          .write rest.length 0 .openElse trivial
        have hPush : Nests ⟨rest.length, 1⟩
            (.push { frame with inElse := true })
            ⟨rest.length + 1, 0⟩ :=
          .push rest.length 0 hFrame
        exact ⟨depth,
          .cons hPop (.cons hElse (.cons hPush hNext))⟩
      · have hPush : Nests ⟨rest.length, 1⟩ (.push frame)
            ⟨rest.length + 1, 0⟩ :=
          .push rest.length 0 hFrame
        exact ⟨rest.length + 1, .cons hPop (.cons hPush
          (.single (.fail _ _ _)))⟩

theorem nestsAll_openWhile
    (depth line : Nat)
    (cond : Text) :
    NestsAll ⟨depth, 0⟩ (openWhile line cond)
      ⟨depth + 1, 0⟩ := by
  have hFrame : Frame.IsLevel
      ⟨.loop, "while", line, false, false, []⟩ := by
    simp [Frame.IsLevel]
  have hLoop : Nests ⟨depth, 0⟩ (.write 0 .openForever)
      ⟨depth, 1⟩ :=
    .write depth 0 .openForever trivial
  have hOpen : Nests ⟨depth + 1, 0⟩ (.write 0 .openOnFailure)
      ⟨depth + 1, 1⟩ :=
    .write (depth + 1) 0 .openOnFailure trivial
  have hLeave : Nests ⟨depth + 1, 1⟩ (.write 1 .leaveLoop)
      ⟨depth + 1, 1⟩ :=
    .write (depth + 1) 1 .leaveLoop trivial
  have hClose : Nests ⟨depth + 1, 1⟩ (.write 0 .close)
      ⟨depth + 1, 0⟩ :=
    .write (depth + 1) 0 .close trivial
  have hHead : NestsAll ⟨depth, 0⟩
      [.write 0 .openForever,
       .push ⟨.loop, "while", line, false, false, []⟩]
      ⟨depth + 1, 0⟩ :=
    .cons hLoop (.single (.push depth 0 hFrame))
  exact (hHead.append
      (nestsAll_condition (depth + 1) line cond)).append
    (.cons hOpen (.cons hLeave (.single hClose)))

theorem isLevel_forFrame_freeItems
    (line loop : Nat)
    (items : List Template) :
    (forFrame line (freeItems loop items)).IsLevel := by
  intro freed hFreed
  simp only [forFrame, freeItems] at hFreed
  split at hFreed
  · cases hFreed
  · rcases List.mem_map.mp hFreed with ⟨index, _, rfl⟩
    exact ⟨trivial, rfl, rfl⟩

theorem isLevel_declareItems
    (loop : Nat)
    (items : List Template) :
    (declareItems loop items).IsLevel := by
  unfold declareItems
  split
  · exact ⟨trivial, rfl, rfl⟩
  · exact ⟨trivial, rfl, rfl⟩

theorem nestsAll_openForItems
    (depth line loop : Nat)
    (var : Text)
    (items : List Template) :
    NestsAll ⟨depth, 0⟩ (openForItems line loop var items)
      ⟨depth + 1, 0⟩ := by
  have hLevel := isLevel_declareItems loop items
  have hDeclare := Nests.write depth 0 _ hLevel.legible
  rw [hLevel.closes_eq, hLevel.opens_eq] at hDeclare
  have hOpen : Nests ⟨depth, 0⟩
      (.write 0 (.openItems loop items.length))
      ⟨depth, 1⟩ :=
    .write depth 0 (.openItems loop items.length) trivial
  have hPush := Nests.push depth 0
    (isLevel_forFrame_freeItems line loop items)
  have hAssign : Nests ⟨depth + 1, 0⟩
      (.write 0 (.assignItem var loop)) ⟨depth + 1, 0⟩ :=
    .write (depth + 1) 0 (.assignItem var loop) trivial
  exact .cons (.countLoop _) (.cons hDeclare
    (.cons hOpen (.cons hPush (.single hAssign))))

theorem nestsAll_openFor
    (depth line loops : Nat)
    (var : Text)
    (items : Option Text) :
    NestsAll ⟨depth, 0⟩ (openFor line loops var items)
      ⟨depth + 1, 0⟩ := by
  unfold openFor
  split
  · have hOpen : Nests ⟨depth, 0⟩ (.write 0 .openNever)
        ⟨depth, 1⟩ :=
      .write depth 0 .openNever trivial
    have hFrame : (forFrame line []).IsLevel := by
      simp [Frame.IsLevel, forFrame]
    exact .cons hOpen (.single (.push depth 0 hFrame))
  · exact nestsAll_openForItems depth line (loops + 1) var _

/- Closing a block closes its brace. -/
theorem nestsAll_closeFrame
    (depth : Nat)
    {frame : Frame}
    (hFrame : frame.IsLevel) :
    NestsAll ⟨depth, 1⟩ (closeFrame frame) ⟨depth, 0⟩ := by
  have hClose : Nests ⟨depth, 1⟩ (.write 0 .close)
      ⟨depth, 0⟩ :=
    .write depth 0 .close trivial
  exact .cons hClose (nestsAll_lines depth 0 hFrame)

theorem nestsAll_closeAs
    (depth line : Nat)
    (keyword : Text)
    (expected : BlockKind)
    {frame : Frame}
    (hFrame : frame.IsLevel) :
    NestsAll ⟨depth + 1, 0⟩
      (closeAs line keyword expected frame) ⟨depth, 0⟩ := by
  have hPop : Nests ⟨depth + 1, 0⟩ .pop ⟨depth, 1⟩ :=
    .pop depth 0
  have hClose := nestsAll_closeFrame depth hFrame
  unfold closeAs
  split
  · exact .cons hPop hClose
  · exact .cons hPop (.cons (.warn _ _ _) hClose)

/- A chain is closed as far as it goes. -/
theorem nestsAll_closeChain
    {blocks : List Frame}
    (hBlocks : ∀ frame ∈ blocks, frame.IsLevel) :
    ∃ behind, NestsAll ⟨blocks.length, 0⟩
      (closeChain blocks) ⟨behind, 0⟩ := by
  induction blocks with
  | nil => exact ⟨0, .nil _⟩
  | cons frame rest ih =>
      have hPop : Nests ⟨rest.length + 1, 0⟩ .pop
          ⟨rest.length, 1⟩ :=
        .pop rest.length 0
      have hClose := nestsAll_closeFrame rest.length
        (hBlocks frame (by simp))
      rcases ih fun frame hFrame =>
          hBlocks frame (by simp [hFrame]) with ⟨behind, hRest⟩
      unfold closeChain
      split
      · exact ⟨behind, .cons hPop (hClose.append hRest)⟩
      · exact ⟨rest.length,
          .cons hPop (hClose.append (.nil _))⟩

theorem nestsAll_closeIf
    (line : Nat)
    {blocks : List Frame}
    (hBlocks : ∀ frame ∈ blocks, frame.IsLevel) :
    ∃ behind, NestsAll ⟨blocks.length, 0⟩
      (closeIf line blocks) ⟨behind, 0⟩ := by
  cases blocks with
  | nil => exact ⟨0, .single (.fail _ _ _)⟩
  | cons frame rest =>
      have hClose := nestsAll_closeAs rest.length line "fi"
        .conditional (hBlocks frame (by simp))
      rcases nestsAll_closeChain fun frame hFrame =>
          hBlocks frame (List.mem_cons_of_mem _ hFrame) with
        ⟨behind, hRest⟩
      simp only [closeIf]
      split
      · exact ⟨behind, hClose.append hRest⟩
      · exact ⟨rest.length, hClose.append (.nil _)⟩

theorem nestsAll_closeLoop
    (line : Nat)
    {blocks : List Frame}
    (hBlocks : ∀ frame ∈ blocks, frame.IsLevel) :
    ∃ behind, NestsAll ⟨blocks.length, 0⟩
      (closeLoop line blocks) ⟨behind, 0⟩ := by
  cases blocks with
  | nil => exact ⟨0, .single (.fail _ _ _)⟩
  | cons frame rest =>
      exact ⟨rest.length, nestsAll_closeAs rest.length line
        "done" .loop (hBlocks frame (by simp))⟩

/- At the end of the script, no brace is left open. -/
theorem nestsAll_closeAll
    {blocks : List Frame}
    (hBlocks : ∀ frame ∈ blocks, frame.IsLevel) :
    NestsAll ⟨blocks.length, 0⟩ (closeAll blocks)
      ⟨0, 0⟩ := by
  induction blocks with
  | nil => exact .nil _
  | cons frame rest ih =>
      have hPop : Nests ⟨rest.length + 1, 0⟩ .pop
          ⟨rest.length, 1⟩ :=
        .pop rest.length 0
      have hClose := nestsAll_closeFrame rest.length
        (hBlocks frame (by simp))
      have hRest := ih fun frame hFrame =>
        hBlocks frame (by simp [hFrame])
      rw [closeAll, List.flatMap_cons]
      split
      · exact .cons hPop (hClose.append hRest)
      · exact .cons hPop (.cons (.fail _ _ _)
          (hClose.append hRest))

------------------------------------------------------------
-- Statements
------------------------------------------------------------

/- A fault in place of what would be written is nested too. -/
theorem nestsAll_orFail
    (depth line : Nat)
    {result : Except Fault (List Event)}
    (h : ∀ events, result = .ok events →
      NestsAll ⟨depth, 0⟩ events ⟨depth, 0⟩) :
    NestsAll ⟨depth, 0⟩ (orFail line result)
      ⟨depth, 0⟩ := by
  cases result with
  | ok events => exact h events rfl
  | error fault => exact .single (.fail _ _ _)

theorem nestsAll_print
    (depth : Nat)
    (newline : Bool)
    (template : Template) :
    NestsAll ⟨depth, 0⟩ (print newline template)
      ⟨depth, 0⟩ := by
  have hPrint : (printLine newline template).IsLevel := by
    cases template with
    | literal text =>
        cases newline <;> exact ⟨trivial, rfl, rfl⟩
    | format text args => exact ⟨trivial, rfl, rfl⟩
  refine nestsAll_lines depth 0 ?_
  intro line hLine
  rcases List.mem_cons.mp hLine with rfl | hLine
  · exact hPrint
  · rw [List.mem_singleton.mp hLine]
    exact ⟨trivial, rfl, rfl⟩

theorem nestsAll_echo
    (depth : Nat)
    {args : Text}
    {events : List Event}
    (h : echo args = .ok events) :
    NestsAll ⟨depth, 0⟩ events ⟨depth, 0⟩ := by
  have hWords (newline : Bool) (words : List Text) :
      NestsAll ⟨depth, 0⟩ (printWords newline words)
        ⟨depth, 0⟩ :=
    nestsAll_print depth newline _
  unfold echo at h
  split at h
  · contradiction
  split at h
  · contradiction
  split at h
  · contradiction
  split at h
  · cases h
    exact hWords true []
  · split at h
    · cases h
      exact hWords false _
    · cases h
      exact hWords true _

/- Only a numeral that can be read gets into a line. -/
theorem nestsAll_ofArith
    (depth : Nat)
    {expr : Text}
    (line : ArithExpr → Line)
    (hLine : ∀ value : ArithExpr, value.IsLegible →
      (line value).IsLevel)
    {events : List Event}
    (h : (ArithExpr.ofText expr).map
      (fun value => lines 0 [line value, .succeed]) =
        .ok events) :
    NestsAll ⟨depth, 0⟩ events ⟨depth, 0⟩ := by
  cases hValue : ArithExpr.ofText expr with
  | error fault => simp [hValue, Except.map] at h
  | ok value =>
      simp only [hValue, Except.map, Except.ok.injEq] at h
      subst h
      refine nestsAll_lines depth 0 ?_
      intro written hWritten
      rcases List.mem_cons.mp hWritten with rfl | hWritten
      · exact hLine value (ArithExpr.isLegible_of_ofText hValue)
      · rw [List.mem_singleton.mp hWritten]
        exact ⟨trivial, rfl, rfl⟩

theorem nestsAll_captureAssign
    (depth : Nat)
    (name command : Text) :
    NestsAll ⟨depth, 0⟩ (captureAssign name command)
      ⟨depth, 0⟩ := by
  refine nestsAll_withValuesInScope depth _ ?_
  intro line hLine
  simp only [List.mem_cons, List.not_mem_nil, or_false]
    at hLine
  rcases hLine with rfl | rfl | rfl
  · exact ⟨trivial, rfl, rfl⟩
  · exact ⟨trivial, rfl, rfl⟩
  · exact ⟨trivial, rfl, rfl⟩

theorem nestsAll_assign
    (depth : Nat)
    (name word : Text) :
    NestsAll ⟨depth, 0⟩ (assign name word)
      ⟨depth, 0⟩ := by
  refine (nestsAll_withValues depth _ ?_).append
    (.single (.write depth 0 .succeed trivial))
  intro line hLine
  rw [List.mem_singleton.mp hLine]
  exact ⟨trivial, rfl, rfl⟩

theorem nestsAll_pipeline
    (depth : Nat)
    (stages : List Text) :
    NestsAll ⟨depth, 0⟩ (pipeline stages) ⟨depth, 0⟩ := by
  refine nestsAll_withValuesInScope depth _ ?_
  intro line hLine
  simp only [List.mem_cons, List.not_mem_nil, or_false]
    at hLine
  rcases hLine with rfl | rfl | rfl | rfl
  · exact ⟨trivial, rfl, rfl⟩
  · exact ⟨trivial, rfl, rfl⟩
  · exact ⟨trivial, rfl, rfl⟩
  · exact ⟨trivial, rfl, rfl⟩

theorem nestsAll_background
    (depth : Nat)
    (command : Text) :
    NestsAll ⟨depth, 0⟩ (background command)
      ⟨depth, 0⟩ := by
  refine nestsAll_withValues depth _ ?_
  intro line hLine
  simp only [List.mem_cons, List.not_mem_nil, or_false]
    at hLine
  rcases hLine with rfl | rfl
  · exact ⟨trivial, rfl, rfl⟩
  · exact ⟨trivial, rfl, rfl⟩

theorem nestsAll_changeDir
    (depth : Nat)
    {dir : Option Text}
    {events : List Event}
    (h : changeDir dir = .ok events) :
    NestsAll ⟨depth, 0⟩ events ⟨depth, 0⟩ := by
  unfold changeDir at h
  cases hDir : directory dir with
  | error fault => simp [hDir, Except.map] at h
  | ok value =>
      simp only [hDir, Except.map, Except.ok.injEq] at h
      subst h
      refine nestsAll_withValues depth _ ?_
      intro line hLine
      rw [List.mem_singleton.mp hLine]
      exact ⟨trivial, rfl, rfl⟩

theorem nestsAll_exit
    (depth : Nat)
    {code : Option Text}
    {events : List Event}
    (h : exit code = .ok events) :
    NestsAll ⟨depth, 0⟩ events ⟨depth, 0⟩ := by
  unfold exit at h
  cases hCode : exitCode code with
  | error fault => simp [hCode, Except.map] at h
  | ok e =>
      simp only [hCode, Except.map, Except.ok.injEq] at h
      subst h
      exact .single (.write depth 0 (.exit e) trivial)

/- The working directory is printed in scopes within scopes. -/
theorem nestsAll_printWorkingDir
    (depth : Nat) :
    NestsAll ⟨depth, 0⟩ printWorkingDir ⟨depth, 0⟩ :=
  .cons (.write depth 0 .openScope trivial) <|
  .cons (.write depth 1 .declareWorkingDir trivial) <|
  .cons (.write depth 1 .openOnWorkingDir trivial) <|
  .cons (.write depth 2 .printWorkingDir trivial) <|
  .cons (.write depth 2 .succeed trivial) <|
  .cons (.write depth 1 .openElse trivial) <|
  .cons (.write depth 2 .failed trivial) <|
  .cons (.write depth 1 .close trivial) <|
  .single (.write depth 0 .close trivial)

theorem nestsAll_informational
    (depth : Nat)
    (command text : Text) :
    NestsAll ⟨depth, 0⟩ (informational command text)
      ⟨depth, 0⟩ := by
  unfold informational
  split
  · exact .single (.write depth 0 .succeed trivial)
  split
  · exact .single (.write depth 0 .failed trivial)
  split
  · exact nestsAll_printWorkingDir depth
  · exact nestsAll_run depth text

end Event

/- Whatever blocks are open, a statement leaves no scope open. -/
theorem Command.nestsAll_events
    {blocks : List Frame}
    (hBlocks : ∀ frame ∈ blocks, frame.IsLevel)
    (loops line : Nat)
    (command : Command) :
    ∃ depth, Event.NestsAll ⟨blocks.length, 0⟩
      (command.events blocks loops line) ⟨depth, 0⟩ := by
  rcases command with ⟨text, form⟩
  -- Only the keywords of blocks change the number of blocks.
  cases form with
  | elifBranch cond =>
      exact Event.nestsAll_continueElse line "elif" hBlocks
        (Event.nestsAll_openBranch _ line cond
          (by simp [Frame.IsLevel]))
  | elseBranch =>
      exact Event.nestsAll_continueElse line "else" hBlocks
        (.nil _)
  | ifOpen cond =>
      exact ⟨_, Event.nestsAll_openBranch _ line cond
        (by simp [Frame.IsLevel])⟩
  | whileOpen cond =>
      exact ⟨_, Event.nestsAll_openWhile _ line cond⟩
  | forOpen var items =>
      exact ⟨_, Event.nestsAll_openFor _ line loops var items⟩
  | ifClose => exact Event.nestsAll_closeIf line hBlocks
  | loopClose => exact Event.nestsAll_closeLoop line hBlocks
  | comment => exact ⟨_, .nil _⟩
  | bodyOpen => exact ⟨_, .nil _⟩
  | pipeline stages =>
      exact ⟨_, Event.nestsAll_pipeline _ stages⟩
  | echo args =>
      exact ⟨_, Event.nestsAll_orFail _ line
        fun _ h => Event.nestsAll_echo _ h⟩
  | arithAssign name expr =>
      exact ⟨_, Event.nestsAll_orFail _ line fun _ h =>
        Event.nestsAll_ofArith _ (.assignInt name)
          (fun _ hValue => ⟨hValue, rfl, rfl⟩) h⟩
  | arithPrint expr =>
      exact ⟨_, Event.nestsAll_orFail _ line fun _ h =>
        Event.nestsAll_ofArith _ .printInt
          (fun _ hValue => ⟨hValue, rfl, rfl⟩) h⟩
  | captureAssign name body =>
      exact ⟨_, Event.nestsAll_captureAssign _ name body⟩
  | test expr => exact ⟨_, Event.nestsAll_test _ line expr⟩
  | changeDir dir =>
      exact ⟨_, Event.nestsAll_orFail _ line
        fun _ h => Event.nestsAll_changeDir _ h⟩
  | exit code =>
      exact ⟨_, Event.nestsAll_orFail _ line
        fun _ h => Event.nestsAll_exit _ h⟩
  | background body =>
      exact ⟨_, Event.nestsAll_background _ body⟩
  | assign name value =>
      exact ⟨_, Event.nestsAll_assign _ name value⟩
  | informational name args =>
      exact ⟨_, Event.nestsAll_informational _ name text⟩
  | varPrint => exact ⟨_, Event.nestsAll_print _ true _⟩
  | unsupported => exact ⟨_, .single (.fail _ _ _)⟩

------------------------------------------------------------
-- Drafts
------------------------------------------------------------

namespace Draft

/-
  The rows of the draft open a brace for every open block,
  and no others.
-/
structure IsNested
    (draft : Draft) : Prop where
  rows : Row.LeadsAll 0 draft.rows.toList draft.depth
  level : ∀ frame ∈ draft.blocks, frame.IsLevel

theorem isNested_start
    (file unit : Text) :
    (start file unit).IsNested :=
  ⟨.nil 0, by simp [start]⟩

/- Nested events keep a draft nested. -/
theorem IsNested.extend
    {draft : Draft}
    (h : draft.IsNested)
    (hFile : Text.occursIn "*/" draft.file = false)
    {events : List Event}
    {depth : Nat}
    (hEvents : Event.NestsAll ⟨draft.blocks.length, 0⟩ events
      ⟨depth, 0⟩) :
    (draft.extend events).IsNested ∧
      (draft.extend events).depth = depth := by
  have hDepth : (draft.extend events).depth = depth := by
    rw [Draft.depth, blocks_extend]
    exact hEvents.length_stackAll rfl
  refine ⟨⟨?_, ?_⟩, hDepth⟩
  · rw [hDepth, toList_rows_extend]
    exact h.rows.append (hEvents.leadsAll_rowsAll hFile rfl)
  · rw [blocks_extend]
    exact hEvents.isLevel_of_mem_stackAll h.level

/- One statement keeps a draft nested. -/
theorem IsNested.addCommand
    {draft : Draft}
    (h : draft.IsNested)
    (hFile : Text.occursIn "*/" draft.file = false)
    (line : Nat)
    (command : Command) :
    (draft.addCommand line command).IsNested := by
  rcases command.nestsAll_events h.level draft.loops line with
    ⟨depth, hEvents⟩
  exact (h.extend hFile hEvents).1

/- Any sequence of statements keeps a draft nested. -/
theorem IsNested.addCommands
    {draft : Draft}
    (h : draft.IsNested)
    (hFile : Text.occursIn "*/" draft.file = false)
    (commands : List (Nat × Command)) :
    (draft.addCommands commands).IsNested := by
  induction commands generalizing draft with
  | nil => exact h
  | cons command commands ih =>
      rw [addCommands_cons]
      refine ih (h.addCommand hFile command.1 command.2) ?_
      rw [Draft.addCommand, file_extend]
      exact hFile

theorem IsNested.finish
    {draft : Draft}
    (h : draft.IsNested)
    (hFile : Text.occursIn "*/" draft.file = false) :
    draft.finish.IsNested ∧ draft.finish.depth = 0 :=
  h.extend hFile (Event.nestsAll_closeAll h.level)

/- The draft of a script is nested, and all its blocks are closed. -/
theorem isNested_ofScript
    {file : Text}
    (hFile : Text.occursIn "*/" file = false)
    (unit script : Text) :
    (ofScript file unit script).IsNested ∧
      (ofScript file unit script).depth = 0 := by
  have hNested := (isNested_start file unit).addCommands hFile
    (Command.ofScript script)
  have hFinal := hNested.finish
    (by rw [file_addCommands]; exact hFile)
  rcases ofScript_eq file unit script with ⟨log, hScript⟩
  rw [hScript]
  exact ⟨⟨hFinal.1.rows, hFinal.1.level⟩, hFinal.2⟩

/- The lexemes of the text of a nested draft are those of its lines. -/
theorem IsNested.readsWhole_body
    {draft : Draft}
    (h : draft.IsNested)
    (hUnit : draft.unit.isAllBlank = true) :
    ReadsWhole draft.body
      (draft.rows.toList.flatMap (·.line.lexemes)) :=
  Row.readsWhole_flatMap_render hUnit h.rows.legible

/- As many braces are open as blocks. -/
theorem IsNested.unclosed_body
    {draft : Draft}
    (h : draft.IsNested)
    (hUnit : draft.unit.isAllBlank = true) :
    unclosed (ofText draft.body) = draft.depth ∧
      StaysAbove 0 (ofText draft.body) := by
  rw [(h.readsWhole_body hUnit).ofText_eq]
  simpa using h.rows.unclosed_lexemes

/- Every row is indented by the braces that are open before it. -/
theorem IsNested.indent_eq
    {draft : Draft}
    (h : draft.IsNested)
    (hUnit : draft.unit.isAllBlank = true)
    {before after : List Row}
    {row : Row}
    (hRows : draft.rows.toList = before ++ row :: after)
    (hMarker : row.line.isMarker = false) :
    (row.indent : Int) =
      1 + unclosed
          (ofText (before.flatMap (Row.render draft.unit))) -
        (if row.line.render.head? = some '\x7d'
          then 1 else 0) := by
  have hAll := h.rows
  rw [hRows] at hAll
  rcases hAll.split with ⟨level, hBefore, hBehind⟩
  cases hBehind with
  | cons hRow _ =>
      have hIndent := hRow.indented hMarker
      have hOpen : unclosed (ofText
          (before.flatMap (Row.render draft.unit))) = level := by
        rw [Row.ofText_flatMap_render hUnit hBefore.legible]
        simpa using hBefore.unclosed_lexemes.1
      rw [hOpen]
      simp only [Line.head?_render_eq_brace_iff hRow.legible]
      split
      · omega
      · have hAtMost : row.line.closes ≤ 1 := by
          cases row.line <;> simp [Line.closes]
        omega

/-
  The braces of a program follow the blocks of its script,
  whatever its statements are: there are never less than no
  open braces, behind every statement as many are open as
  blocks, and none is open at the end.  Every line but for
  the marks of faults is indented accordingly.
-/
theorem unclosed_body_eq_depth
    (file unit : Text)
    (hFile : Text.occursIn "*/" file = false)
    (hUnit : unit.isAllBlank = true)
    (commands : List (Nat × Command)) :
    let final :=
      ((start file unit).addCommands commands).finish
    (∀ part, part <+: ofText final.body →
      0 ≤ unclosed part) ∧
    (∀ done, done <+: commands →
      let draft := (start file unit).addCommands done
      draft.body <+: final.body ∧
        unclosed (ofText draft.body) = draft.depth) ∧
    unclosed (ofText final.body) = 0 ∧
    (∀ before row after,
      final.rows.toList = before ++ row :: after →
      row.line.isMarker = false →
      (row.indent : Int) =
        1 + unclosed
            (ofText (before.flatMap (Row.render unit))) -
          (if row.line.render.head? = some '\x7d'
            then 1 else 0)) := by
  intro final
  -- The invariant holds behind every part of the statements.
  have hNested (done : List (Nat × Command)) :
      ((start file unit).addCommands done).IsNested :=
    (isNested_start file unit).addCommands hFile done
  have hFinal := (hNested commands).finish
    (by rw [file_addCommands]; exact hFile)
  have hFinalUnit : final.unit = unit := by
    simp [final, finish, start]
  have hBlank : final.unit.isAllBlank = true := by
    rw [hFinalUnit]
    exact hUnit
  have hBraces := hFinal.1.unclosed_body hBlank
  refine ⟨?_, ?_, ?_, ?_⟩
  · intro part hPart
    simpa using hBraces.2 part hPart
  · rintro done ⟨rest, rfl⟩ draft
    have hUnitDone : draft.unit = unit := by
      simp [draft, start]
    constructor
    · have hRows : draft.rows.toList <+:
          final.rows.toList := by
        simp only [final, finish, toList_rows_extend,
          addCommands_append]
        exact (rows_prefix_addCommands draft rest).trans
          (List.prefix_append _ _)
      rcases hRows with ⟨more, hMore⟩
      simp only [body, hUnitDone, hFinalUnit, ← hMore,
        List.flatMap_append]
      exact List.prefix_append _ _
    · refine ((hNested done).unclosed_body ?_).1
      rw [hUnitDone]
      exact hUnit
  · rw [hBraces.1, hFinal.2]
    rfl
  · intro before row after hRows hMarker
    have hIndent := hFinal.1.indent_eq hBlank hRows hMarker
    rwa [hFinalUnit] at hIndent

/- A conditional that a loop keyword closes, and an `else` too late. -/
theorem unclosed_body_eq_depth_of_mismatched :
    let opening : Nat × Command :=
      (1, ⟨"if true", .ifOpen "true"⟩)
    let commands := [opening, (2, ⟨"done", .loopClose⟩),
      (3, ⟨"else", .elseBranch⟩)]
    let final :=
      ((start "a.sh" "  ").addCommands commands).finish
    Text.occursIn "*/" "a.sh" = false ∧
    Text.isAllBlank "  " = true ∧
    (([] <+: ofText final.body) ∧ 0 ≤ unclosed []) ∧
    ([opening] <+: commands ∧
      unclosed (ofText
        ((start "a.sh" "  ").addCommands [opening]).body) =
          1) ∧
    unclosed (ofText final.body) = 0 ∧
    (∃ after, final.rows.toList =
        [⟨1, .succeed⟩, ⟨1, .openOnSuccess⟩] ++
          ⟨1, .close⟩ :: after) ∧
    (Line.isMarker .close = false) ∧
    ((1 : Nat) : Int) =
      1 + unclosed (ofText
          (List.flatMap (Row.render "  ")
            [⟨1, .succeed⟩, ⟨1, .openOnSuccess⟩])) -
        (if Line.close.render.head? = some '\x7d'
          then 1 else 0) := by
  intro opening commands final
  have hFile : Text.occursIn "*/" "a.sh" = false := by
    decide +kernel
  have hUnit : Text.isAllBlank "  " = true := by
    decide +kernel
  have hAll := unclosed_body_eq_depth "a.sh" "  " hFile hUnit
    commands
  have hOpening : [opening] <+: commands := ⟨_, rfl⟩
  have hDepth :
      ((start "a.sh" "  ").addCommands [opening]).depth = 1 := by
    decide +kernel
  have hRows : final.rows.toList =
      [⟨1, .succeed⟩, ⟨1, .openOnSuccess⟩] ++
        ⟨1, .close⟩ :: [⟨1, .marker "a.sh" 3
          (Fault.unopened "else").message⟩] := by
    decide +kernel
  refine ⟨hFile, hUnit, ⟨List.nil_prefix,
    hAll.1 [] List.nil_prefix⟩, ⟨hOpening, ?_⟩,
    hAll.2.2.1, ⟨_, hRows⟩, rfl,
    hAll.2.2.2 _ _ _ hRows rfl⟩
  rw [(hAll.2.1 [opening] hOpening).2, hDepth]
  rfl

end Draft

end ShellToC
