import ShellToC.Script.Form

/-
  This file defines the grammar of blocks over the roles
  that statements play, and a machine with a stack of open
  blocks that accepts the same sequences of roles.

  All conditions of one conditional are one open block of
  the machine.

  Key definitions include:
    * `BlockRole`
    * `BlockRole.Derives`
    * `OpenBlock.step`
    * `OpenBlock.run`

  Main declarations:
    * `OpenBlock.run_eq_some_nil_iff`
-/

namespace ShellToC

------------------------------------------------------------
-- The Grammar
------------------------------------------------------------

/- What a statement means for the blocks of its script. -/
inductive BlockRole where
  | plain
  | ifOpen
  | elif
  | otherwise
  | fi
  | loopOpen
  | done
  deriving DecidableEq, Repr

/- The role of a statement, by its form. -/
def Form.blockRole : Form → BlockRole
  | .ifOpen _ => .ifOpen
  | .elifBranch _ => .elif
  | .elseBranch => .otherwise
  | .ifClose => .fi
  | .whileOpen _ => .loopOpen
  | .forOpen _ _ => .loopOpen
  | .loopClose => .done
  | _ => .plain

namespace BlockRole

/- What the rules of the grammar describe. -/
inductive Part where
  | script
  | item
  | elifs
  | ending
  deriving DecidableEq, Repr

/-
  The grammar of blocks: a script is a sequence of items.
  An item is a plain statement, a conditional with any
  number of further conditions and at most one `else`, or a
  loop.
-/
inductive Derives : Part → List BlockRole → Prop where
  | empty : Derives .script []
  | sequence
      {first rest : List BlockRole}
      (hFirst : Derives .item first)
      (hRest : Derives .script rest) :
      Derives .script (first ++ rest)
  | plain : Derives .item [.plain]
  | conditional
      {body elifs ending : List BlockRole}
      (hBody : Derives .script body)
      (hElifs : Derives .elifs elifs)
      (hEnding : Derives .ending ending) :
      Derives .item
        (.ifOpen :: (body ++ (elifs ++ (ending ++ [.fi]))))
  | loop
      {body : List BlockRole}
      (hBody : Derives .script body) :
      Derives .item (.loopOpen :: (body ++ [.done]))
  | noElif : Derives .elifs []
  | elif
      {body rest : List BlockRole}
      (hBody : Derives .script body)
      (hRest : Derives .elifs rest) :
      Derives .elifs (.elif :: (body ++ rest))
  | noElse : Derives .ending []
  | otherwise
      {body : List BlockRole}
      (hBody : Derives .script body) :
      Derives .ending (.otherwise :: body)

end BlockRole

------------------------------------------------------------
-- The Machine
------------------------------------------------------------

/-
  A block that is open: a conditional that takes further
  branches, one in its last branch, or a loop.
-/
inductive OpenBlock where
  | branch
  | last
  | loop
  deriving DecidableEq, Repr

namespace OpenBlock

open BlockRole

/- The open blocks after a statement, if it fits the innermost one. -/
def step : List OpenBlock → BlockRole → Option (List OpenBlock)
  | blocks, .plain => some blocks
  | blocks, .ifOpen => some (.branch :: blocks)
  | .branch :: blocks, .elif => some (.branch :: blocks)
  | .branch :: blocks, .otherwise => some (.last :: blocks)
  | .branch :: blocks, .fi => some blocks
  | .last :: blocks, .fi => some blocks
  | blocks, .loopOpen => some (.loop :: blocks)
  | .loop :: blocks, .done => some blocks
  | _, _ => none

/- The open blocks after statements, if all of them fit. -/
def run
    (blocks : List OpenBlock) : List BlockRole → Option (List OpenBlock)
  | [] => some blocks
  | role :: roles => (step blocks role).bind (run · roles)

theorem run_append
    (blocks : List OpenBlock)
    (a b : List BlockRole) :
    run blocks (a ++ b) = (run blocks a).bind (run · b) := by
  induction a generalizing blocks with
  | nil => rfl
  | cons role a ih =>
      simp only [List.cons_append, run]
      cases step blocks role with
      | none => rfl
      | some next => exact ih next

/- What each part of the grammar does to the open blocks. -/
def Passes : Part → List BlockRole → Prop
  | .script, roles => ∀ blocks, run blocks roles = some blocks
  | .item, roles => ∀ blocks, run blocks roles = some blocks
  | .elifs, roles => ∀ blocks,
      run (.branch :: blocks) roles = some (.branch :: blocks)
  | .ending, roles => ∀ blocks,
      run (.branch :: blocks) roles = some (.branch :: blocks) ∨
        run (.branch :: blocks) roles = some (.last :: blocks)

theorem passes_of_derives
    {part : Part}
    {roles : List BlockRole}
    (h : Derives part roles) :
    Passes part roles := by
  induction h with
  | empty => exact fun blocks => rfl
  | sequence _ _ hFirst hRest =>
      intro blocks
      rw [run_append, hFirst blocks]
      exact hRest blocks
  | plain => exact fun blocks => rfl
  | conditional _ _ _ hBody hElifs hEnding =>
      intro blocks
      change run (.branch :: blocks) _ = _
      rw [run_append, hBody, Option.bind_some, run_append,
        hElifs, Option.bind_some, run_append]
      rcases hEnding blocks with hEnding | hEnding
      · rw [hEnding]
        rfl
      · rw [hEnding]
        rfl
  | loop _ hBody =>
      intro blocks
      change run (.loop :: blocks) _ = _
      rw [run_append, hBody]
      rfl
  | noElif => exact fun blocks => rfl
  | @elif body rest _ _ hBody hRest =>
      intro blocks
      change run (.branch :: blocks) (body ++ rest) = _
      rw [run_append, hBody]
      exact hRest blocks
  | noElse => exact fun blocks => Or.inl rfl
  | otherwise _ hBody =>
      intro blocks
      exact Or.inr (hBody (.last :: blocks))

/- The sequences of roles that close the given blocks. -/
def Closes : List OpenBlock → List BlockRole → Prop
  | [], roles => Derives .script roles
  | .branch :: blocks, roles =>
      ∃ body elifs ending rest,
        roles = body ++ (elifs ++ (ending ++ .fi :: rest)) ∧
        Derives .script body ∧ Derives .elifs elifs ∧
        Derives .ending ending ∧ Closes blocks rest
  | .last :: blocks, roles =>
      ∃ body rest, roles = body ++ .fi :: rest ∧
        Derives .script body ∧ Closes blocks rest
  | .loop :: blocks, roles =>
      ∃ body rest, roles = body ++ .done :: rest ∧
        Derives .script body ∧ Closes blocks rest

/- An item before what closes the blocks belongs to the innermost one. -/
theorem closes_append
    {item roles : List BlockRole}
    (hItem : Derives .item item)
    {blocks : List OpenBlock}
    (h : Closes blocks roles) :
    Closes blocks (item ++ roles) := by
  match blocks with
  | [] => exact .sequence hItem h
  | .branch :: blocks =>
      rcases h with ⟨body, elifs, ending, rest, rfl, hBody, h⟩
      exact ⟨item ++ body, elifs, ending, rest, by simp,
        .sequence hItem hBody, h⟩
  | .last :: blocks =>
      rcases h with ⟨body, rest, rfl, hBody, h⟩
      exact ⟨item ++ body, rest, by simp,
        .sequence hItem hBody, h⟩
  | .loop :: blocks =>
      rcases h with ⟨body, rest, rfl, hBody, h⟩
      exact ⟨item ++ body, rest, by simp,
        .sequence hItem hBody, h⟩

/- One step back: what closes the blocks after a statement. -/
theorem closes_cons
    {blocks next : List OpenBlock}
    {role : BlockRole}
    (hStep : step blocks role = some next)
    {roles : List BlockRole}
    (h : Closes next roles) :
    Closes blocks (role :: roles) := by
  unfold step at hStep
  split at hStep
  · cases hStep
    exact closes_append .plain h
  · cases hStep
    rcases h with ⟨body, elifs, ending, rest, rfl,
      hBody, hElifs, hEnding, hRest⟩
    have hItem := closes_append
      (.conditional hBody hElifs hEnding) hRest
    simpa using hItem
  · cases hStep
    rcases h with ⟨body, elifs, ending, rest, rfl,
      hBody, hElifs, h⟩
    exact ⟨[], .elif :: (body ++ elifs), ending, rest,
      by simp, .empty, .elif hBody hElifs, h⟩
  · cases hStep
    rcases h with ⟨body, rest, rfl, hBody, hRest⟩
    exact ⟨[], [], .otherwise :: body, rest, by simp,
      .empty, .noElif, .otherwise hBody, hRest⟩
  · cases hStep
    exact ⟨[], [], [], roles, rfl, .empty, .noElif, .noElse, h⟩
  · cases hStep
    exact ⟨[], roles, rfl, .empty, h⟩
  · cases hStep
    rcases h with ⟨body, rest, rfl, hBody, hRest⟩
    have hItem := closes_append (.loop hBody) hRest
    simpa using hItem
  · cases hStep
    exact ⟨[], roles, rfl, .empty, h⟩
  · cases hStep

theorem closes_of_run
    {blocks : List OpenBlock}
    {roles : List BlockRole}
    (h : run blocks roles = some []) :
    Closes blocks roles := by
  induction roles generalizing blocks with
  | nil =>
      cases h
      exact .empty
  | cons role roles ih =>
      rcases Option.bind_eq_some_iff.mp h with
        ⟨next, hStep, hRest⟩
      exact closes_cons hStep (ih hRest)

/- The machine accepts exactly what the grammar derives. -/
theorem run_eq_some_nil_iff
    {roles : List BlockRole} :
    run [] roles = some [] ↔ Derives .script roles := by
  constructor
  · exact closes_of_run
  · intro h
    exact passes_of_derives h []

end OpenBlock

end ShellToC
