import ShellToC.Proofs.Guard
import ShellToC.Proofs.LineTexts

/-
  This file defines trees of blocks, the statements that
  they consist of, and the code that they stand for.

  The code of a tree is defined by recursion on the tree, as
  the lines of text that are written.  A further condition of
  a conditional is a conditional in the `else` branch of the
  one before it.  Every line of the code carries the guards
  under which it is reached.

  Key definitions include:
    * `BlockTree`
    * `BlockTree.statements`
    * `BlockTree.code`
-/

namespace ShellToC

------------------------------------------------------------
-- Trees
------------------------------------------------------------

/- What a tree stands for. -/
inductive TreePart where
  | script
  | item
  | branches
  deriving DecidableEq, Repr

/-
  Well nested statements: a script is a sequence of items,
  and the branches of a conditional are what follows its
  first one, up to the keyword that closes it.
-/
inductive BlockTree : TreePart → Type where
  | empty : BlockTree .script
  | sequence
      (first : BlockTree .item)
      (rest : BlockTree .script) :
      BlockTree .script
  | plain
      (line : Nat)
      (command : Command)
      (hPlain : command.form.blockRole = .plain) :
      BlockTree .item
  | conditional
      (opening : Statement)
      (condition : Text)
      (body : BlockTree .script)
      (branches : BlockTree .branches) :
      BlockTree .item
  | whileLoop
      (opening : Statement)
      (condition : Text)
      (body : BlockTree .script)
      (closing : Statement) :
      BlockTree .item
  | forLoop
      (opening : Statement)
      (var : Text)
      (items : Option Text)
      (body : BlockTree .script)
      (closing : Statement) :
      BlockTree .item
  | elif
      (opening : Statement)
      (condition : Text)
      (body : BlockTree .script)
      (branches : BlockTree .branches) :
      BlockTree .branches
  | otherwise
      (opening : Statement)
      (body : BlockTree .script)
      (closing : Statement) :
      BlockTree .branches
  | fi
      (closing : Statement) :
      BlockTree .branches

/- A statement of a given form. -/
def Statement.command
    (statement : Statement)
    (form : Form) : Nat × Command :=
  (statement.line, ⟨statement.text, form⟩)

namespace BlockTree

/- The statements of a tree, in the order in which they stand. -/
def statements
    {part : TreePart} : BlockTree part → List (Nat × Command)
  | .empty => []
  | .sequence first rest => first.statements ++ rest.statements
  | .plain line command _ => [(line, command)]
  | .conditional opening condition body branches =>
      opening.command (.ifOpen condition) ::
        (body.statements ++ branches.statements)
  | .whileLoop opening condition body closing =>
      opening.command (.whileOpen condition) ::
        (body.statements ++ [closing.command .loopClose])
  | .forLoop opening var items body closing =>
      opening.command (.forOpen var items) ::
        (body.statements ++ [closing.command .loopClose])
  | .elif opening condition body branches =>
      opening.command (.elifBranch condition) ::
        (body.statements ++ branches.statements)
  | .otherwise opening body closing =>
      opening.command .elseBranch ::
        (body.statements ++ [closing.command .ifClose])
  | .fi closing => [closing.command .ifClose]

/- The number of conditions of a tree. -/
def conditions
    {part : TreePart} : BlockTree part → Nat
  | .empty => 0
  | .sequence first rest => first.conditions + rest.conditions
  | .plain _ _ _ => 0
  | .conditional _ _ body branches =>
      1 + body.conditions + branches.conditions
  | .whileLoop _ _ body _ => body.conditions
  | .forLoop _ _ _ body _ => body.conditions
  | .elif _ _ body branches =>
      1 + body.conditions + branches.conditions
  | .otherwise _ body _ => body.conditions
  | .fi _ => 0

/- The items of a loop. -/
def templates
    (items : Option Text) : List Template :=
  (Word.split (items.getD [])).map Template.ofWord

/- The loop numbers that the items of a loop take. -/
def itemLoops
    (items : Option Text) : Nat :=
  if (templates items).isEmpty then 0 else 1

/- The loop numbers that a tree takes. -/
def loops
    {part : TreePart} : BlockTree part → Nat
  | .empty => 0
  | .sequence first rest => first.loops + rest.loops
  | .plain _ _ _ => 0
  | .conditional _ _ body branches =>
      body.loops + branches.loops
  | .whileLoop _ _ body _ => body.loops
  | .forLoop _ _ items body _ => itemLoops items + body.loops
  | .elif _ _ body branches => body.loops + branches.loops
  | .otherwise _ body _ => body.loops
  | .fi _ => 0

/- The number of further conditions of a conditional. -/
def elifs
    {part : TreePart} : BlockTree part → Nat
  | .conditional _ _ _ branches => branches.elifs
  | .elif _ _ _ branches => branches.elifs + 1
  | _ => 0

end BlockTree

------------------------------------------------------------
-- The Code of a Tree
------------------------------------------------------------

/-
  Where code is written: inside of so many blocks, after so
  many loops and conditions, and reached under guards.
-/
structure CodePlace where
  file : Text
  depth : Nat
  loops : Nat
  conditions : Nat
  guards : List Guard
  deriving DecidableEq, Repr

namespace CodePlace

/- The code of events at a place. -/
def write
    (place : CodePlace)
    (events : List Event) : List GuardedLine :=
  (Event.codeLines place.file place.depth events).map
    (⟨·, place.guards⟩)

/- A line of code at a place. -/
def line
    (place : CodePlace)
    (text : Text) : List GuardedLine :=
  [⟨⟨place.depth + 1, text⟩, place.guards⟩]

theorem write_append
    (place : CodePlace)
    (a b : List Event) :
    place.write (a ++ b) = place.write a ++ place.write b := by
  simp [write, Event.codeLines_append]

@[simp] theorem map_toCodeLine_write
    (place : CodePlace)
    (events : List Event) :
    (place.write events).map GuardedLine.toCodeLine =
      Event.codeLines place.file place.depth events := by
  simp [write, Function.comp_def]

@[simp] theorem map_toCodeLine_line
    (place : CodePlace)
    (text : Text) :
    (place.line text).map GuardedLine.toCodeLine =
      [⟨place.depth + 1, text⟩] := rfl

/- The place behind a tree. -/
def behind
    (place : CodePlace)
    {part : TreePart}
    (tree : BlockTree part) : CodePlace :=
  { place with
    loops := place.loops + tree.loops
    conditions := place.conditions + tree.conditions }

/- The place inside of a block, after so many more loop numbers. -/
def inside
    (place : CodePlace)
    (loops : Nat) : CodePlace :=
  { place with
    depth := place.depth + 1
    loops := place.loops + loops }

/- The place in the branch of the next condition. -/
def onSuccess
    (place : CodePlace) : CodePlace :=
  { place with
    depth := place.depth + 1
    conditions := place.conditions + 1
    guards := .success place.conditions :: place.guards }

/- The place in the `else` branch of the next condition. -/
def onFailure
    (place : CodePlace) : CodePlace :=
  { place with
    depth := place.depth + 1
    conditions := place.conditions + 1
    guards := .failure place.conditions :: place.guards }

/- The line that leads from the branch of a condition to this place. -/
def enterElse
    (place : CodePlace) : List GuardedLine :=
  [⟨⟨place.depth, "\x7d else \x7b"⟩, place.guards.tail⟩]

end CodePlace

namespace BlockTree

/- The text of the line that declares the items of a loop. -/
def itemsText
    (loop : Text)
    (items : List Template) : Text :=
  if items.all Template.isLiteral then
    "static const char *const sh_items_" ++ loop ++
      "[] = \x7b " ++
      Text.joinWith ", "
        (items.map fun item => Literal.quote item.text) ++
      " \x7d;"
  else
    "char *sh_items_" ++ loop ++ "[] = \x7b " ++
      Text.joinWith ", "
        (items.map fun item =>
          (Event.buildItem item).renderBuild) ++
      " \x7d;"

/-
  What is written before the body of a loop over items.  The
  items and their index are numbered like the loop.
-/
def openItems
    (place : CodePlace)
    (var : Text)
    (items : Option Text) : List GuardedLine :=
  if (templates items).isEmpty then
    place.line "while (0) \x7b"
  else
    let loop := Text.ofNat (place.loops + 1)
    place.line (itemsText loop (templates items)) ++
    place.line
      ("for (size_t sh_i_" ++ loop ++ " = 0; sh_i_" ++ loop ++
        " < " ++ Text.ofNat (templates items).length ++
        "; sh_i_" ++ loop ++ "++) \x7b") ++
    (place.inside 1).line
      ("setenv(" ++ Literal.quote var ++ ", sh_items_" ++ loop ++
        "[sh_i_" ++ loop ++ "], 1);")

/-
  What is written behind the body of a loop over items: the
  end of the loop, and the release of each item if the items
  are built.
-/
def closeItems
    (place : CodePlace)
    (items : Option Text) : List GuardedLine :=
  place.line "\x7d" ++
    if (templates items).all Template.isLiteral then
      []
    else
      (List.range (templates items).length).flatMap fun index =>
        place.line
          ("free(sh_items_" ++ Text.ofNat (place.loops + 1) ++
            "[" ++ Text.ofNat index ++ "]);")

/-
  The code of a tree at a place.  The place of the branches
  of a conditional is the `else` branch of its condition.
-/
def code
    {part : TreePart} :
    BlockTree part → CodePlace → List GuardedLine
  | .empty, _ => []
  | .sequence first rest, place =>
      first.code place ++ rest.code (place.behind first)
  | .plain line command _, place =>
      place.write (command.events [] 0 line)
  | .conditional opening condition body branches, place =>
      place.write (Event.condition opening.line condition) ++
      place.line "if (last_status == 0) \x7b" ++
      body.code place.onSuccess ++
      branches.code (place.onFailure.behind body) ++
      place.line "\x7d"
  | .whileLoop opening condition body _, place =>
      place.line "for (;;) \x7b" ++
      (place.inside 0).write
        (Event.condition opening.line condition) ++
      (place.inside 0).line "if (last_status != 0) \x7b" ++
      ((place.inside 0).inside 0).line "break;" ++
      (place.inside 0).line "\x7d" ++
      body.code (place.inside 0) ++
      place.line "\x7d"
  | .forLoop _ var items body _, place =>
      openItems place var items ++
      body.code (place.inside (itemLoops items)) ++
      closeItems place items
  | .elif opening condition body branches, place =>
      place.enterElse ++
      place.write (Event.condition opening.line condition) ++
      place.line "if (last_status == 0) \x7b" ++
      body.code place.onSuccess ++
      branches.code (place.onFailure.behind body) ++
      place.line "\x7d"
  | .otherwise _ body _, place =>
      place.enterElse ++ body.code place
  | .fi _, _ => []

------------------------------------------------------------
-- Texts of Lines
------------------------------------------------------------

theorem render_declareItems
    (loop : Nat)
    (items : List Template) :
    (Event.declareItems loop items).render =
      itemsText (Text.ofNat loop) items := by
  unfold Event.declareItems itemsText
  split <;>
    simp [Line.render_declareItems,
      Line.render_declareBuiltItems, Text.ofString_eq,
      Function.comp_def]

/- What is written before the body of a loop, as events. -/
theorem openItems_eq
    (place : CodePlace)
    (var : Text)
    (items : Option Text) :
    openItems place var items =
      if (templates items).isEmpty then
        place.write [.write 0 .openNever]
      else
        let loop := place.loops + 1
        place.write
          [.write 0 (Event.declareItems loop (templates items)),
           .write 0 (.openItems loop
            (templates items).length)] ++
        (place.inside 1).write
          [.write 0 (.assignItem var loop)] := by
  unfold openItems
  split
  · rfl
  · dsimp only
    rw [← Line.render_openItems, ← Line.render_assignItem,
      ← render_declareItems]
    rfl

/- What is written behind the body of a loop, as events. -/
theorem closeItems_eq
    (place : CodePlace)
    (items : Option Text) :
    closeItems place items =
      place.write (.write 0 .close ::
        Event.lines 0
          (Event.freeItems (place.loops + 1)
            (templates items))) := by
  unfold closeItems Event.freeItems
  rw [← List.singleton_append, CodePlace.write_append]
  congr 1
  split
  · rfl
  · simp [CodePlace.write, CodePlace.line, Event.codeLines,
      Event.lines, Event.rows, Row.codeLine, Line.render_freeItem,
      List.flatMap_map, List.map_flatMap]

end BlockTree

end ShellToC
