import ShellToC.Proofs.BlockTree

/-
  This file shows that the code of a tree is guarded as the
  tree is nested.

  Whoever reads the lines of the code without the tree finds
  the guards that the code carries.  A branch is reached when
  its own condition succeeds and those before it fail.

  Key definitions include:
    * `BlockTree.IsRead`
    * `BlockTree.bodies`
    * `BlockTree.branchGuards`
    * `BlockTree.HasGuards`

  Main declarations:
    * `BlockTree.isRead`
    * `BlockTree.hasGuards`
-/

namespace ShellToC

------------------------------------------------------------
-- Guards
------------------------------------------------------------

namespace CodePlace

open Guard.Reader

/- Plain events at a place are read from scope to scope. -/
theorem reads_write
    {place : CodePlace}
    {stack : List Guard}
    (hGuards : stack.filter Guard.isCondition = place.guards)
    (conditions : Nat)
    {before behind : Nesting}
    {events : List Event}
    (hNests : Event.NestsAll before events behind)
    (hPlain : events.all Event.isPlain = true) :
    Reads (inScopes conditions before.scopes stack)
      (place.write events)
      (inScopes conditions behind.scopes stack) := by
  rw [write, ← hGuards]
  exact reads_codeLines hNests hPlain place.file place.depth
    conditions stack

/- A condition and its test lead into its branch. -/
theorem reads_condition
    {place : CodePlace}
    {stack : List Guard}
    (hGuards : stack.filter Guard.isCondition = place.guards)
    (line : Nat)
    (condition : Text) :
    Reads ⟨place.conditions, stack⟩
      (place.write (Event.condition line condition) ++
        place.line "if (last_status == 0) \x7b")
      ⟨place.conditions + 1,
        .success place.conditions :: stack⟩ := by
  have hCondition := reads_write hGuards place.conditions
    (Event.nestsAll_condition 0 line condition)
    (Event.all_isPlain_condition line condition)
  have hOpen := reads_open place.conditions (place.depth + 1)
    stack
  rw [hGuards] at hOpen
  exact hCondition.append hOpen

/- The closing brace leads out of a branch. -/
theorem reads_close
    {place : CodePlace}
    {stack : List Guard}
    (hGuards : stack.filter Guard.isCondition = place.guards)
    (conditions : Nat)
    (guard : Guard) :
    Reads ⟨conditions, guard :: stack⟩ (place.line "\x7d")
      ⟨conditions, stack⟩ := by
  have hClose := Guard.Reader.reads_close conditions
    (place.depth + 1) guard stack
  rw [hGuards] at hClose
  exact hClose

/- The `else` leads from the branch of a condition to the other one. -/
theorem reads_enterElse
    {place : CodePlace}
    {stack : List Guard}
    {condition : Nat}
    (hGuards : (Guard.failure condition :: stack).filter
      Guard.isCondition = place.guards)
    (conditions : Nat) :
    Reads ⟨conditions, .success condition :: stack⟩
      place.enterElse
      ⟨conditions, .failure condition :: stack⟩ := by
  have hElse := reads_else conditions place.depth
    (.success condition) stack
  have hLabel : stack.filter Guard.isCondition =
      place.guards.tail := congrArg List.tail hGuards
  rw [hLabel] at hElse
  exact hElse

end CodePlace

namespace BlockTree

open Guard.Reader

/-
  The guards that the reader finds are those of the code.
  Branches are read from the branch of the condition before
  them.
-/
def IsRead : (part : TreePart) → BlockTree part → Prop
  | .branches, tree =>
      ∀ (place : CodePlace) (stack : List Guard)
        (condition : Nat),
        (Guard.failure condition :: stack).filter
          Guard.isCondition = place.guards →
        ∃ guard,
          Reads ⟨place.conditions, .success condition :: stack⟩
            (tree.code place)
            ⟨place.conditions + tree.conditions,
              guard :: stack⟩
  | _, tree =>
      ∀ (place : CodePlace) (stack : List Guard),
        stack.filter Guard.isCondition = place.guards →
        Reads ⟨place.conditions, stack⟩ (tree.code place)
          ⟨place.conditions + tree.conditions, stack⟩

section Equations

attribute [local simp] code conditions

/- A further condition is a conditional in the `else` branch. -/
theorem code_elif
    (opening : Statement)
    (condition : Text)
    (body : BlockTree .script)
    (branches : BlockTree .branches)
    (place : CodePlace) :
    code (.elif opening condition body branches) place =
      place.enterElse ++
        code (.conditional opening condition body branches)
          place := by
  simp

/- A conditional is read if its body and its branches are. -/
theorem isRead_conditional
    (opening : Statement)
    (condition : Text)
    {body : BlockTree .script}
    (hBody : IsRead .script body)
    {branches : BlockTree .branches}
    (hBranches : IsRead .branches branches) :
    IsRead .item
      (.conditional opening condition body branches) := by
  intro place stack hGuards
  have hHead := CodePlace.reads_condition hGuards opening.line
    condition
  have hInside := hBody place.onSuccess
    (.success place.conditions :: stack)
    (congrArg (Guard.success place.conditions :: ·) hGuards)
  rcases hBranches (place.onFailure.behind body) stack
      place.conditions
      (congrArg (Guard.failure place.conditions :: ·) hGuards)
    with ⟨guard, hRest⟩
  have hClose := CodePlace.reads_close hGuards
    (place.conditions + 1 + body.conditions +
      branches.conditions) guard
  have h := ((hHead.append hInside).append hRest).append hClose
  simpa [Nat.add_assoc] using h

end Equations

/- The condition of a loop, and the way out if it fails. -/
theorem reads_loopTest
    {place : CodePlace}
    {stack : List Guard}
    (hGuards : stack.filter Guard.isCondition = place.guards)
    (conditions line : Nat)
    (condition : Text) :
    Reads ⟨conditions, stack⟩
      (place.write (Event.condition line condition) ++
        (place.line "if (last_status != 0) \x7b" ++
          ((place.inside 0).line "break;" ++
            place.line "\x7d")))
      ⟨conditions, stack⟩ := by
  have hCondition := CodePlace.reads_write hGuards conditions
    (Event.nestsAll_condition 0 line condition)
    (Event.all_isPlain_condition line condition)
  have hNests : Event.NestsAll ⟨0, 0⟩
      [.write 0 .openOnFailure, .write 1 .leaveLoop,
       .write 0 .close] ⟨0, 0⟩ :=
    .cons (.write 0 0 .openOnFailure trivial) <|
      .cons (.write 0 1 .leaveLoop trivial) <|
      .single (.write 0 0 .close trivial)
  rw [← Line.render_openOnFailure]
  exact hCondition.append
    (CodePlace.reads_write hGuards conditions hNests rfl)

theorem reads_openItems
    {place : CodePlace}
    {stack : List Guard}
    (hGuards : stack.filter Guard.isCondition = place.guards)
    (conditions : Nat)
    (var : Text)
    (items : Option Text) :
    Reads ⟨conditions, stack⟩ (openItems place var items)
      ⟨conditions, .other :: stack⟩ := by
  rw [openItems_eq]
  split
  · have hNests : Event.NestsAll ⟨0, 0⟩
        [.write 0 .openNever] ⟨0, 1⟩ :=
      .single (.write 0 0 .openNever trivial)
    exact CodePlace.reads_write hGuards conditions hNests rfl
  · have hLevel := Event.isLevel_declareItems (place.loops + 1)
      (templates items)
    have hDeclare := Event.nestsAll_lines 0 0
      (List.forall_mem_singleton.mpr hLevel)
    have hOpen : Event.NestsAll ⟨0, 0⟩
        [.write 0 (.openItems (place.loops + 1)
          (templates items).length)] ⟨0, 1⟩ :=
      .single (.write 0 0 (.openItems _ _) trivial)
    have hPlain : [Event.write 0
        (Event.declareItems (place.loops + 1)
          (templates items)),
        .write 0 (.openItems (place.loops + 1)
          (templates items).length)].all Event.isPlain =
            true := by
      simp only [Event.declareItems]
      split <;> rfl
    have hHead := CodePlace.reads_write hGuards conditions
      (hDeclare.append hOpen) hPlain
    have hAssign : Event.NestsAll ⟨0, 0⟩
        [.write 0 (.assignItem var (place.loops + 1))]
        ⟨0, 0⟩ :=
      .single (.write 0 0 (.assignItem _ _) trivial)
    have hInside := @CodePlace.reads_write (place.inside 1)
      (.other :: stack) hGuards conditions _ _ _ hAssign rfl
    exact hHead.append hInside

theorem reads_closeItems
    {place : CodePlace}
    {stack : List Guard}
    (hGuards : stack.filter Guard.isCondition = place.guards)
    (conditions : Nat)
    (items : Option Text) :
    Reads ⟨conditions, .other :: stack⟩
      (closeItems place items) ⟨conditions, stack⟩ := by
  have hFrame := Event.isLevel_forFrame_freeItems 0
    (place.loops + 1) (templates items)
  have hPlain : (Event.closeFrame (Event.forFrame 0
      (Event.freeItems (place.loops + 1)
        (templates items)))).all Event.isPlain = true := by
    refine List.all_eq_true.mpr ?_
    intro event hEvent
    rcases List.mem_cons.mp hEvent with rfl | hEvent
    · rfl
    · rcases List.mem_map.mp hEvent with ⟨line, hLine, rfl⟩
      have hOpens := (hFrame line hLine).opens_eq
      cases line with
      | openOnSuccess => cases hOpens
      | _ => rfl
  rw [closeItems_eq]
  exact CodePlace.reads_write hGuards conditions
    (Event.nestsAll_closeFrame 0 hFrame) hPlain

/- The reader finds the guards of every tree. -/
theorem isRead
    {part : TreePart}
    (tree : BlockTree part) :
    IsRead part tree := by
  induction tree with
  | empty =>
      intro place stack hGuards
      exact Reads.nil _
  | sequence first rest hFirst hRest =>
      intro place stack hGuards
      have h := (hFirst place stack hGuards).append
        (hRest (place.behind first) stack hGuards)
      simpa [code, conditions, CodePlace.behind,
        Nat.add_assoc] using h
  | plain line command hPlain =>
      intro place stack hGuards
      rcases @Command.nestsAll_events [] (by simp) 0 line
        command with ⟨depth, hNests⟩
      exact CodePlace.reads_write hGuards place.conditions
        hNests (Command.all_isPlain_events hPlain [] 0 line)
  | conditional opening condition body branches hBody
      hBranches =>
      exact isRead_conditional opening condition hBody hBranches
  | whileLoop opening condition body closing hBody =>
      intro place stack hGuards
      have hOpen : Event.NestsAll ⟨0, 0⟩
          [.write 0 .openForever] ⟨0, 1⟩ :=
        .single (.write 0 0 .openForever trivial)
      have hLoop : Reads ⟨place.conditions, stack⟩
          (place.line "for (;;) \x7b")
          ⟨place.conditions, .other :: stack⟩ :=
        CodePlace.reads_write hGuards place.conditions hOpen rfl
      have hTest := @reads_loopTest (place.inside 0)
        (.other :: stack) hGuards place.conditions opening.line
        condition
      have hInside := hBody (place.inside 0) (.other :: stack)
        hGuards
      have hClose := CodePlace.reads_close hGuards
        (place.conditions + body.conditions) .other
      have h := ((hLoop.append hTest).append hInside).append hClose
      simpa [code, conditions] using h
  | forLoop opening var items body closing hBody =>
      intro place stack hGuards
      have hOpen := reads_openItems hGuards place.conditions var
        items
      have hInside := hBody (place.inside (itemLoops items))
        (.other :: stack) hGuards
      have hClose := reads_closeItems hGuards
        (place.conditions + body.conditions) items
      exact (hOpen.append hInside).append hClose
  | elif opening condition body branches hBody hBranches =>
      intro place stack number hGuards
      have hElse := CodePlace.reads_enterElse hGuards
        place.conditions
      have hNested := isRead_conditional opening condition hBody
        hBranches place (.failure number :: stack) hGuards
      refine ⟨.failure number, ?_⟩
      rw [code_elif]
      exact hElse.append hNested
  | otherwise opening body closing hBody =>
      intro place stack number hGuards
      have hElse := CodePlace.reads_enterElse hGuards
        place.conditions
      have hInside := hBody place (.failure number :: stack)
        hGuards
      exact ⟨.failure number, hElse.append hInside⟩
  | fi closing =>
      intro place stack number hGuards
      exact ⟨.success number, Reads.nil _⟩

------------------------------------------------------------
-- The Branches of a Conditional
------------------------------------------------------------

/- The bodies of a conditional, each with the place of its code. -/
def bodies
    {part : TreePart} :
    BlockTree part → CodePlace →
      List (CodePlace × BlockTree .script)
  | .conditional _ _ body branches, place =>
      (place.onSuccess, body) ::
        branches.bodies (place.onFailure.behind body)
  | .elif _ _ body branches, place =>
      (place.onSuccess, body) ::
        branches.bodies (place.onFailure.behind body)
  | .otherwise _ body _, place => [(place, body)]
  | _, _ => []

/- The numbers of the conditions of a conditional. -/
def numbers
    {part : TreePart} : BlockTree part → Nat → List Nat
  | .conditional _ _ body branches, number =>
      number :: branches.numbers (number + 1 + body.conditions)
  | .elif _ _ body branches, number =>
      number :: branches.numbers (number + 1 + body.conditions)
  | _, _ => []

/-
  The guards of a branch, among conditions of the given
  numbers: the conditions before it have failed, and its own
  condition, if it has one, has succeeded.
-/
def branchGuards
    (numbers : List Nat)
    (index : Nat) : List Guard :=
  numbers[index]?.toList.map Guard.success ++
    ((numbers.take index).map Guard.failure).reverse

/- The code of every branch is part of the code under its guards. -/
def HasGuards
    {part : TreePart}
    (tree : BlockTree part) : Prop :=
  ∀ (place : CodePlace) (index : Nat) (inner : CodePlace)
    (body : BlockTree .script),
    (tree.bodies place)[index]? = some (inner, body) →
    body.code inner <:+: tree.code place ∧
      inner.guards =
        branchGuards (tree.numbers place.conditions) index ++
          place.guards

section Equations

attribute [local simp] code bodies numbers

theorem hasGuards_conditional
    (opening : Statement)
    (condition : Text)
    (first : BlockTree .script)
    {branches : BlockTree .branches}
    (hBranches : branches.HasGuards) :
    HasGuards
      (.conditional opening condition first branches) := by
  intro place index inner body hBody
  rw [bodies] at hBody
  rw [code, numbers]
  cases index with
  | zero =>
      simp only [List.getElem?_cons_zero,
        Option.some.injEq, Prod.mk.injEq] at hBody
      rcases hBody with ⟨rfl, rfl⟩
      exact ⟨⟨place.write
            (Event.condition opening.line condition) ++
          place.line "if (last_status == 0) \x7b",
        branches.code (place.onFailure.behind first) ++
          place.line "\x7d",
        by simp only [List.append_assoc]⟩, rfl⟩
  | succ index =>
      rw [List.getElem?_cons_succ] at hBody
      rcases hBranches (place.onFailure.behind first) index
          inner body hBody with ⟨hCode, hGuards⟩
      constructor
      · exact hCode.trans ⟨_, place.line "\x7d", rfl⟩
      · rw [hGuards]
        simp [branchGuards, CodePlace.behind,
          CodePlace.onFailure, Nat.add_assoc]

theorem hasGuards
    {part : TreePart}
    (tree : BlockTree part) :
    tree.HasGuards := by
  induction tree with
  | conditional opening condition body branches _ hBranches =>
      exact hasGuards_conditional opening condition body
        hBranches
  | elif opening condition first branches _ hBranches =>
      intro place index inner body hBody
      rcases hasGuards_conditional opening condition first
          hBranches place index inner body hBody with
        ⟨hCode, hGuards⟩
      refine ⟨?_, hGuards⟩
      rw [code_elif]
      exact hCode.trans (List.suffix_append _ _).isInfix
  | otherwise opening first closing =>
      intro place index inner body hBody
      rw [bodies, List.getElem?_singleton] at hBody
      split at hBody
      · simp only [Option.some.injEq, Prod.mk.injEq] at hBody
        rcases hBody with ⟨rfl, rfl⟩
        refine ⟨⟨place.enterElse, [], by simp⟩, ?_⟩
        simp [branchGuards]
      · contradiction
  | _ =>
      intro place index inner body hBody
      simp at hBody

end Equations

end BlockTree

end ShellToC
