import ShellToC.Proofs.TreeGuards
import ShellToC.Proofs.TreeWriting

/-
  This file shows what a draft becomes when the statements
  of a tree of blocks are added to it: the text of the tree
  is added to its body, and its open blocks stay as they
  were.

  Main declarations:
    * `Draft.body_addCommands_conditional`
    * `Draft.addCommands_statements`
-/

namespace ShellToC

------------------------------------------------------------
-- Drafts
------------------------------------------------------------

namespace Draft

/- What statements write is added to the draft. -/
theorem addCommands_of_writes
    {draft : Draft}
    {commands : List (Nat × Command)}
    {lines : List CodeLine}
    {blocks : List Frame}
    {loops : Nat}
    (h : Command.Writes draft.file draft.blocks draft.loops
      commands lines blocks loops) :
    (draft.addCommands commands).blocks = blocks ∧
      (draft.addCommands commands).body =
        draft.body ++ lines.flatMap (CodeLine.render draft.unit) := by
  constructor
  · rw [addCommands_eq_extend, blocks_extend]
    exact h.stack_eq
  · rw [body_eq, unit_addCommands, addCommands_eq_extend,
      toList_rows_extend, List.map_append, h.lines_eq,
      List.flatMap_append, ← body_eq]

/- What the keyword at the end of a conditional adds. -/
theorem body_addCommands_conditional
    (draft : Draft)
    (opening : Statement)
    (condition : Text)
    (body : BlockTree .script)
    (branches : BlockTree .branches) :
    let tree := BlockTree.conditional opening condition body
      branches
    tree.statements =
      tree.front ++ [branches.closing.command .ifClose] ∧
    (draft.addCommands tree.statements).body =
      (draft.addCommands tree.front).body ++
        (CodeLine.closers draft.depth (tree.elifs + 1)).flatMap
          (CodeLine.render draft.unit) := by
  intro tree
  have hStatements : tree.statements =
      tree.front ++ [branches.closing.command .ifClose] := by
    simp [tree, BlockTree.statements, BlockTree.front,
      branches.statements_eq_front_append]
  refine ⟨hStatements, ?_⟩
  let place : CodePlace :=
    ⟨draft.file, draft.depth + 1, draft.loops, 0, []⟩
  have hOpen := Command.writes_ifOpen opening condition
    draft.file draft.blocks draft.loops
  have hInside := body.unfolds place
    (Command.branchFrame "if" opening.line false ::
      draft.blocks) rfl
  rcases branches.chain_of_front draft.file draft.blocks
      draft.blocks 0
      (Command.branchFrame "if" opening.line false)
      (draft.loops + body.loops)
      (.first rfl rfl rfl) rfl
    with ⟨lines, blocks, loops, hRest, hChain⟩
  rw [Nat.zero_add] at hChain
  have hFront := hOpen.append (hInside.append hRest)
  have hClose := Command.writes_ifClose branches.closing
    draft.file hChain loops
  have hBefore := (addCommands_of_writes hFront).2
  have hAll :=
    (addCommands_of_writes (hFront.append hClose)).2
  rw [List.flatMap_append, ← List.append_assoc draft.body,
    ← hBefore] at hAll
  rw [hStatements]
  exact hAll

/-
  Well nested statements are written as the code of their
  tree, wherever they stand, and leave the open blocks as
  they were.  Whoever reads the lines that are written, and
  knows nothing about the tree, finds each of them guarded
  as the tree says.

  A conditional with so many further conditions is closed by
  one more closing brace, all of them written by the keyword
  at its end.  Each of its branches is guarded by the failure
  of the conditions before it and by its own success.
-/
theorem addCommands_statements
    (draft : Draft)
    (reader : Guard.Reader) :
    let place : CodePlace :=
      ⟨draft.file, draft.depth, draft.loops,
        reader.conditions,
        reader.stack.filter Guard.isCondition⟩
    (∀ tree : BlockTree .script,
      let final := draft.addCommands tree.statements
      let code := tree.code place
      final.blocks = draft.blocks ∧
      final.body =
        draft.body ++
          code.flatMap (fun line => line.render draft.unit) ∧
      reader.labels (code.map fun line => line.text) =
        code.map fun line => line.guards) ∧
    (∀ opening condition body branches,
      let tree := BlockTree.conditional opening condition body
        branches
      (tree.statements =
          tree.front ++ [branches.closing.command .ifClose] ∧
        (draft.addCommands tree.statements).body =
          (draft.addCommands tree.front).body ++
            (CodeLine.closers draft.depth
              (tree.elifs + 1)).flatMap
                (CodeLine.render draft.unit)) ∧
      ∀ index inner branch,
        (tree.bodies place)[index]? = some (inner, branch) →
        branch.code inner <:+: tree.code place ∧
          inner.guards =
            BlockTree.branchGuards
                (tree.numbers place.conditions) index ++
              place.guards) := by
  intro place
  constructor
  · intro tree final code
    have hWrites := addCommands_of_writes
      (tree.unfolds place draft.blocks rfl)
    have hReads := tree.isRead place reader.stack rfl
    rw [List.flatMap_map] at hWrites
    exact ⟨hWrites.1, hWrites.2, hReads.labels_eq⟩
  · intro opening condition body branches tree
    exact ⟨draft.body_addCommands_conditional opening condition
        body branches,
      fun index inner branch =>
        tree.hasGuards place index inner branch⟩

/- Two conditions and an `else`, all closed by one keyword. -/
theorem addCommands_statements_of_elif :
    let body (line : Nat) (word : Text) : BlockTree .script :=
      .sequence
        (.plain line ⟨"echo " ++ word, .echo (some word)⟩ rfl)
        .empty
    let tree := BlockTree.conditional ⟨"if true", 1⟩ "true"
      (body 2 "one")
      (.elif ⟨"elif false", 3⟩ "false" (body 4 "two")
        (.otherwise ⟨"else", 5⟩ (body 6 "three") ⟨"fi", 7⟩))
    let draft := start "a.sh" "  "
    let place : CodePlace := ⟨"a.sh", 0, 0, 0, []⟩
    let inner : CodePlace :=
      ⟨"a.sh", 2, 0, 2, [.success 1, .failure 0]⟩
    (tree.bodies place)[1]? = some (inner, body 4 "two") ∧
    ((body 4 "two").code inner <:+: tree.code place ∧
      inner.guards =
        BlockTree.branchGuards [0, 1] 1 ++ place.guards) ∧
    (draft.addCommands tree.front).body =
      "  last_status = 0;\n" ++
      "  if (last_status == 0) \x7b\n" ++
      "    puts(\x22one\x22);\n" ++
      "    last_status = 0;\n" ++
      "  \x7d else \x7b\n" ++
      "    last_status = 1;\n" ++
      "    if (last_status == 0) \x7b\n" ++
      "      puts(\x22two\x22);\n" ++
      "      last_status = 0;\n" ++
      "    \x7d else \x7b\n" ++
      "      puts(\x22three\x22);\n" ++
      "      last_status = 0;\n" ∧
    (draft.addCommands tree.statements).body =
      (draft.addCommands tree.front).body ++
        ("    \x7d\n" ++ "  \x7d\n") := by
  intro body tree draft place inner
  have hChain := (addCommands_statements draft ⟨0, []⟩).2
    ⟨"if true", 1⟩ "true" (body 2 "one")
    (.elif ⟨"elif false", 3⟩ "false" (body 4 "two")
      (.otherwise ⟨"else", 5⟩ (body 6 "three") ⟨"fi", 7⟩))
  have hClosers : (CodeLine.closers 0 2).flatMap
      (CodeLine.render "  ") =
        Text.ofString "    \x7d\n" ++ Text.ofString "  \x7d\n" := by
    decide +kernel
  refine ⟨rfl, hChain.2 1 inner (body 4 "two") rfl,
    by decide +kernel, ?_⟩
  rw [← hClosers]
  exact hChain.1.2

end Draft

end ShellToC
