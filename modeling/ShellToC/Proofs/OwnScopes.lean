import ShellToC.Proofs.Scopes

/-
  This file gives the steps by which lines pass: lines that
  only use what is around them, lines that open and close
  scopes, and lines in the scope of one statement.

  Outside of statements, only variables of loops are
  declared.  So a statement may use its own names without
  regard to where it stands, and what happens to its scope
  can be followed without the others.

  Key definitions include:
    * `Scoping.Offers`
    * `Scoping.OnlyLoops`
    * `Scope.Admits`
    * `Scope.Runs`

  Main declarations:
    * `Scoping.Passes.use`
    * `Scoping.Passes.opening`
    * `Scoping.Passes.closing`
    * `Scope.Runs.passes`
-/

namespace ShellToC

------------------------------------------------------------
-- Inert Lines
------------------------------------------------------------

/- The line neither declares, stores nor frees anything. -/
def Line.isInert
    (line : Line) : Bool :=
  line.declared?.isNone && line.stored.isEmpty &&
    line.freed?.isNone

/- The line only makes use of what is declared around it. -/
def Line.onlyUses
    (line : Line) : Bool :=
  line.isInert && line.opens == 0 && line.closes == 0

theorem Line.eq_none_of_isInert
    {line : Line}
    (h : line.isInert = true) :
    line.declared? = none ∧ line.stored = [] ∧
      line.freed? = none := by
  simpa [isInert, and_assoc] using h

theorem Line.isInert_of_onlyUses
    {line : Line}
    (h : line.onlyUses = true) :
    line.isInert = true ∧ line.opens = 0 ∧
      line.closes = 0 := by
  simpa [onlyUses, and_assoc] using h

/- A scope only loses what a line frees. -/
theorem Scope.take_of_freed?_eq_none
    {line : Line}
    (h : line.freed? = none)
    (scope : Scope) :
    scope.take line =
      ⟨scope.names ++ line.declared?.toList,
        scope.held ++ line.stored, scope.gone⟩ := by
  have hHeld : (scope.held ++ line.stored).filter
      (line.freed? ≠ some ·) = scope.held ++ line.stored := by
    apply List.filter_eq_self.mpr
    simp [h]
  rw [take, hHeld, h]
  simp

theorem Scope.take_of_isInert
    {line : Line}
    (h : line.isInert = true)
    (scope : Scope) :
    scope.take line = scope := by
  rcases Line.eq_none_of_isInert h with
    ⟨hDeclared, hStored, hFreed⟩
  rw [take_of_freed?_eq_none hFreed, hDeclared, hStored]
  simp

/- A line that frees a place does nothing else. -/
theorem Line.plain_of_freed?
    {line : Line}
    {place : HeapPlace}
    (h : line.freed? = some place) :
    line.declared? = none ∧ line.stored = [] := by
  cases line with
  | free temp => exact ⟨rfl, rfl⟩
  | freeItem loop index => exact ⟨rfl, rfl⟩
  | _ => cases h

/- Freeing the first of the places that a scope holds. -/
theorem Scope.take_of_freed?
    {line : Line}
    {place : HeapPlace}
    (hFreed : line.freed? = some place)
    {scope : Scope}
    {rest : List HeapPlace}
    (hHeld : scope.held = place :: rest)
    (hNew : place ∉ rest) :
    scope.take line =
      ⟨scope.names, rest, scope.gone ++ [place.owner]⟩ := by
  rcases Line.plain_of_freed? hFreed with ⟨hDeclared, hStored⟩
  have hRest : rest.filter (some place ≠ some ·) = rest := by
    apply List.filter_eq_self.mpr
    intro other hOther
    have hNe : place ≠ other := by
      rintro rfl
      exact hNew hOther
    simpa using hNe
  rw [take, hDeclared, hStored, hFreed, hHeld,
    List.append_nil, List.filter_cons_of_neg (by simp), hRest]
  simp

namespace Scoping

/- Open a scope inside of the others. -/
def enter
    (state : Scoping)
    (scope : Scope) : Scoping :=
  { state with scopes := scope :: state.scopes }

/- The variable is declared around here and not freed. -/
def Offers
    (state : Scoping)
    (l : Local) : Prop :=
  (∃ scope ∈ state.scopes, l ∈ scope.names) ∧
    ∀ scope ∈ state.scopes, l ∉ scope.gone

/- A line that is inert fits if its variables are at hand. -/
theorem fits_of_isInert
    {state : Scoping}
    {line : Line}
    (hInert : line.isInert = true)
    (hCloses : line.closes < state.scopes.length)
    (hEmptied : ∀ scope ∈ state.scopes.take line.closes,
      scope.held = [])
    (hLocals : ∀ l ∈ line.locals,
      (∃ scope ∈ state.scopes.drop line.closes,
        l ∈ scope.names) ∧
      ∀ scope ∈ state.scopes, l ∉ scope.gone) :
    line.Fits state := by
  rcases Line.eq_none_of_isInert hInert with
    ⟨hDeclared, _, hFreed⟩
  refine ⟨hCloses, hEmptied, ?_, ?_, ?_, ?_⟩
  · simp [hDeclared]
  · intro _ l hl
    exact Or.inr (hLocals l hl).1
  · intro _ l hl
    exact (hLocals l hl).2
  · simp [hFreed]

/- All the more if it closes no scope. -/
theorem fits_of_offers
    {state : Scoping}
    (hScopes : state.scopes ≠ [])
    {line : Line}
    (hInert : line.isInert = true)
    (hCloses : line.closes = 0)
    (hLocals : ∀ l ∈ line.locals, state.Offers l) :
    line.Fits state := by
  refine fits_of_isInert hInert ?_ ?_ ?_
  · rw [hCloses]
    exact List.length_pos_iff.mpr hScopes
  · simp [hCloses]
  · rw [hCloses]
    exact hLocals

/- A scope that holds nothing may be closed. -/
theorem fits_of_closes
    {state : Scoping}
    (hScopes : state.scopes ≠ [])
    {scope : Scope}
    (hHeld : scope.held = [])
    {line : Line}
    (hInert : line.isInert = true)
    (hCloses : line.closes = 1)
    (hLocals : line.locals = []) :
    line.Fits (state.enter scope) := by
  refine fits_of_isInert hInert ?_ ?_ (by simp [hLocals])
  · rw [hCloses]
    exact Nat.succ_lt_succ (List.length_pos_iff.mpr hScopes)
  · simpa [enter, hCloses] using hHeld

namespace Passes

theorem use
    {state : Scoping}
    (hScopes : state.scopes ≠ [])
    {line : Line}
    (hLine : line.onlyUses = true)
    (hLocals : ∀ l ∈ line.locals, state.Offers l) :
    Passes state [line] state := by
  rcases Line.isInert_of_onlyUses hLine with
    ⟨hInert, hOpens, hCloses⟩
  have hAfter : state.after line = state := by
    rcases state with ⟨scopes, taken⟩
    cases scopes with
    | nil => exact absurd rfl hScopes
    | cons scope rest =>
        simp [after, hOpens, hCloses,
          (Line.eq_none_of_isInert hInert).1,
          Scope.take_of_isInert hInert]
  have hPasses :=
    single (fits_of_offers hScopes hInert hCloses hLocals)
  rwa [hAfter] at hPasses

/- A line without variables may stand anywhere. -/
theorem bare
    {state : Scoping}
    (hScopes : state.scopes ≠ [])
    {line : Line}
    (hLine : line.onlyUses = true)
    (hLocals : line.locals = []) :
    Passes state [line] state :=
  use hScopes hLine (by simp [hLocals])

/- A line that opens a scope and declares nothing there. -/
theorem opening
    {state : Scoping}
    (hScopes : state.scopes ≠ [])
    {line : Line}
    (hInert : line.isInert = true)
    (hOpens : line.opens = 1)
    (hCloses : line.closes = 0)
    (hLocals : ∀ l ∈ line.locals, state.Offers l) :
    Passes state [line] (state.enter {}) := by
  have hAfter : state.after line = state.enter {} := by
    simp [after, enter, hOpens, hCloses,
      (Line.eq_none_of_isInert hInert).1,
      Scope.take_of_isInert hInert]
  have hPasses :=
    single (fits_of_offers hScopes hInert hCloses hLocals)
  rwa [hAfter] at hPasses

theorem closing
    {state : Scoping}
    (hScopes : state.scopes ≠ [])
    {scope : Scope}
    (hHeld : scope.held = []) :
    Passes (state.enter scope) [.close] state := by
  have hInert : Line.isInert .close = true := rfl
  have hAfter : (state.enter scope).after .close = state := by
    rcases state with ⟨scopes, taken⟩
    cases scopes with
    | nil => exact absurd rfl hScopes
    | cons first rest =>
        simp [after, enter, Line.opens, Line.closes,
          Line.declared?, Scope.take_of_isInert hInert]
  have hPasses :=
    single (fits_of_closes hScopes hHeld hInert rfl rfl)
  rwa [hAfter] at hPasses

/- A scope that is closed may make way for another. -/
theorem reopening
    {state : Scoping}
    (hScopes : state.scopes ≠ [])
    {scope : Scope}
    (hHeld : scope.held = []) :
    Passes (state.enter scope) [.openElse]
      (state.enter {}) := by
  have hInert : Line.isInert .openElse = true := rfl
  have hAfter : (state.enter scope).after .openElse =
      state.enter {} := by
    simp [after, enter, Line.opens, Line.closes,
      Line.declared?, Scope.take_of_isInert hInert]
  have hPasses :=
    single (fits_of_closes hScopes hHeld hInert rfl rfl)
  rwa [hAfter] at hPasses

end Passes

end Scoping

------------------------------------------------------------
-- Scopes of One Statement
------------------------------------------------------------

/- The variable belongs to one of the first loops. -/
def Local.IsOfLoop
    (n : Nat)
    (l : Local) : Prop :=
  ∃ k, l.loop? = some k ∧ k ≤ n

/-
  Between statements, only variables of the first loops were
  ever declared.
-/
structure Scoping.OnlyLoops
    (n : Nat)
    (state : Scoping) : Prop where
  nonempty : state.scopes ≠ []
  names : ∀ scope ∈ state.scopes, ∀ l ∈ scope.names,
    l.IsOfLoop n
  gone : ∀ scope ∈ state.scopes, ∀ l ∈ scope.gone,
    l.IsOfLoop n
  taken : ∀ l ∈ state.taken, l.IsOfLoop n

/- The line may stand in the scope of a statement. -/
structure Scope.Admits
    (scope : Scope)
    (line : Line) : Prop where
  opens : line.opens = 0
  closes : line.closes = 0
  fresh : ∀ l, line.declared? = some l →
    l.loop? = none ∧ l ∉ scope.names
  known : line.freed? = none → ∀ l ∈ line.locals,
    line.declared? = some l ∨ l ∈ scope.names
  alive : line.freed? = none → ∀ l ∈ line.locals,
    l ∉ scope.gone
  holds : ∀ place, line.freed? = some place →
    place ∈ scope.held

namespace Scope

/- Lines in the scope of a statement, and what becomes of it. -/
inductive Runs : Scope → List Line → Scope → Prop where
  | nil (scope : Scope) : Runs scope [] scope
  | cons
      {scope final : Scope}
      {line : Line}
      {lines : List Line}
      (hFirst : scope.Admits line)
      (hRest : Runs (scope.take line) lines final) :
      Runs scope (line :: lines) final

theorem Runs.append
    {scope between final : Scope}
    {a b : List Line}
    (ha : Runs scope a between)
    (hb : Runs between b final) :
    Runs scope (a ++ b) final := by
  induction ha with
  | nil => exact hb
  | cons hFirst _ ih => exact .cons hFirst (ih hb)

/- The variables of loops do not get in the way of a statement. -/
theorem Admits.passes
    {scope : Scope}
    {line : Line}
    (h : scope.Admits line)
    (hOwn : ∀ l ∈ scope.names, l.loop? = none)
    {n : Nat}
    {state : Scoping}
    (hLoops : state.OnlyLoops n) :
    Scoping.Passes (state.enter scope) [line]
      (state.enter (scope.take line)) := by
  have hApart {l : Local} (hl : l.loop? = none) :
      ¬ l.IsOfLoop n := by
    rintro ⟨k, hk, _⟩
    rw [hl] at hk
    cases hk
  have hLocal (hFreed : line.freed? = none) :
      ∀ l ∈ line.locals, l.loop? = none := by
    intro l hl
    rcases h.known hFreed l hl with hDeclared | hName
    · exact (h.fresh l hDeclared).1
    · exact hOwn l hName
  have hAfter : (state.enter scope).after line =
      state.enter (scope.take line) := by
    have hTaken :
        line.declared?.toList.filter (·.loop?.isSome) = [] := by
      apply List.filter_eq_nil_iff.mpr
      intro l hl
      have hDeclared : line.declared? = some l := by
        simpa using hl
      simp [(h.fresh l hDeclared).1]
    simp [Scoping.after, Scoping.enter, h.opens, h.closes,
      hTaken]
  have hFits : line.Fits (state.enter scope) := by
    refine ⟨?_, ?_, ?_, ?_, ?_, ?_⟩
    · rw [h.closes]
      exact Nat.succ_pos _
    · simp [h.closes]
    · intro l hDeclared
      rcases h.fresh l hDeclared with ⟨hLoop, hNew⟩
      refine ⟨?_, fun hTaken =>
        hApart hLoop (hLoops.taken l hTaken)⟩
      intro hKnown
      rcases List.mem_flatMap.mp hKnown with
        ⟨other, hOther, hName⟩
      rcases List.mem_cons.mp hOther with rfl | hOuter
      · exact hNew hName
      · exact hApart hLoop (hLoops.names other hOuter l hName)
    · intro hFreed l hl
      rw [h.closes]
      exact (h.known hFreed l hl).imp_right fun hName =>
        ⟨scope, List.mem_cons_self, hName⟩
    · intro hFreed l hl other hOther hGone
      rcases List.mem_cons.mp hOther with rfl | hOuter
      · exact h.alive hFreed l hl hGone
      · exact hApart (hLocal hFreed l hl)
          (hLoops.gone other hOuter l hGone)
    · intro place hFreed
      exact ⟨scope, state.scopes, rfl, h.holds place hFreed⟩
  have hPasses := Scoping.Passes.single hFits
  rwa [hAfter] at hPasses

theorem Runs.passes
    {scope final : Scope}
    {lines : List Line}
    (h : Runs scope lines final)
    (hOwn : ∀ l ∈ scope.names, l.loop? = none)
    {n : Nat}
    {state : Scoping}
    (hLoops : state.OnlyLoops n) :
    Scoping.Passes (state.enter scope) lines
      (state.enter final) := by
  induction h with
  | nil => exact .nil _
  | @cons scope final line lines hFirst _ ih =>
      refine (hFirst.passes hOwn hLoops).append (ih ?_)
      intro l hl
      rcases List.mem_append.mp hl with hOld | hNew
      · exact hOwn l hOld
      · have hDeclared : line.declared? = some l := by
          simpa using hNew
        exact (hFirst.fresh l hDeclared).1

------------------------------------------------------------
-- Lines of One Statement
------------------------------------------------------------

/- Outside of the heads of loops, a declaration does nothing else. -/
theorem plain_of_declared?
    {line : Line}
    {l : Local}
    (h : line.declared? = some l)
    (hLoop : l.loop? = none) :
    line.opens = 0 ∧ line.closes = 0 ∧
      line.freed? = none := by
  cases line with
  | openItems loop count =>
      cases h
      cases hLoop
  | declareBuilt temp call => exact ⟨rfl, rfl, rfl⟩
  | declareOutput command => exact ⟨rfl, rfl, rfl⟩
  | declareStages commands => exact ⟨rfl, rfl, rfl⟩
  | declareStatuses count => exact ⟨rfl, rfl, rfl⟩
  | declareResult count => exact ⟨rfl, rfl, rfl⟩
  | declareWorkingDir => exact ⟨rfl, rfl, rfl⟩
  | declareItems loop items => exact ⟨rfl, rfl, rfl⟩
  | declareBuiltItems loop items => exact ⟨rfl, rfl, rfl⟩
  | _ => cases h

namespace Runs

theorem declare
    {scope final : Scope}
    {line : Line}
    {lines : List Line}
    {l : Local}
    (hDeclared : line.declared? = some l)
    (hLoop : l.loop? = none)
    (hNew : l ∉ scope.names)
    (hLocals : ∀ other ∈ line.locals,
      other = l ∨ other ∈ scope.names)
    (hGone : scope.gone = [])
    (hRest : Runs ⟨scope.names ++ [l],
      scope.held ++ line.stored, []⟩ lines final) :
    Runs scope (line :: lines) final := by
  rcases plain_of_declared? hDeclared hLoop with
    ⟨hOpens, hCloses, hFreed⟩
  refine .cons ⟨hOpens, hCloses, ?_, ?_, ?_, ?_⟩ ?_
  · intro other hOther
    rw [hDeclared, Option.some.injEq] at hOther
    exact hOther ▸ ⟨hLoop, hNew⟩
  · intro _ other hOther
    refine (hLocals other hOther).imp_left ?_
    rintro rfl
    exact hDeclared
  · simp [hGone]
  · simp [hFreed]
  · have hTake : scope.take line = ⟨scope.names ++ [l],
        scope.held ++ line.stored, []⟩ := by
      rw [take_of_freed?_eq_none hFreed, hDeclared, hGone]
      rfl
    rwa [hTake]

theorem use
    {scope final : Scope}
    {line : Line}
    {lines : List Line}
    (hLine : line.onlyUses = true)
    (hLocals : ∀ l ∈ line.locals, l ∈ scope.names)
    (hGone : scope.gone = [])
    (hRest : Runs scope lines final) :
    Runs scope (line :: lines) final := by
  rcases Line.isInert_of_onlyUses hLine with
    ⟨hInert, hOpens, hCloses⟩
  rcases Line.eq_none_of_isInert hInert with
    ⟨hDeclared, _, hFreed⟩
  refine .cons ⟨hOpens, hCloses, ?_, ?_, ?_, ?_⟩ ?_
  · simp [hDeclared]
  · intro _ l hl
    exact Or.inr (hLocals l hl)
  · simp [hGone]
  · simp [hFreed]
  · rwa [take_of_isInert hInert]

theorem free
    {scope final : Scope}
    {line : Line}
    {lines : List Line}
    {place : HeapPlace}
    (hFreed : line.freed? = some place)
    (hHeld : place ∈ scope.held)
    (hRest : Runs (scope.take line) lines final) :
    Runs scope (line :: lines) final := by
  rcases Line.opens_closes_of_freed? hFreed with
    ⟨hOpens, hCloses⟩
  refine .cons ⟨hOpens, hCloses, ?_, ?_, ?_, ?_⟩ hRest
  · simp [(Line.plain_of_freed? hFreed).1]
  · simp [hFreed]
  · simp [hFreed]
  · intro other hOther
    rw [hFreed, Option.some.injEq] at hOther
    exact hOther ▸ hHeld

end Runs

end Scope

end ShellToC
