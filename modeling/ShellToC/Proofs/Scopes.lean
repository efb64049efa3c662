import ShellToC.Proofs.HeapPlaces

/-
  This file follows the scopes of a program line by line:
  which variables they declare, which places they have to
  free, and which ones are freed already.

  A line fits into the open scopes if it declares no name
  that is known, uses none that is not, frees what its own
  scope holds, and closes no scope that still holds
  anything.  What is said here of lines that fit does not
  depend on how they came to be written.

  Key definitions include:
    * `Scope`
    * `Scoping`
    * `Scoping.after`
    * `Line.Fits`
    * `Scoping.Passes`
    * `Line.level?`

  Main declarations:
    * `Scoping.Passes.not_redeclared`
    * `Scoping.Passes.count_declared_le_one`
    * `Scoping.Passes.isTraced`
    * `Scoping.Passes.exists_free`
    * `Scoping.Passes.exists_other_free`
-/

namespace ShellToC

open Lexeme

------------------------------------------------------------
-- Scopes
------------------------------------------------------------

/- An open scope of the main function. -/
structure Scope where
  /- The variables that are declared in it. -/
  names : List Local := []
  /- The places that it still has to free. -/
  held : List HeapPlace := []
  /- The variables of which a place is freed. -/
  gone : List Local := []
  deriving DecidableEq, Repr

/- What a line makes of the scope that it stands in. -/
def Scope.take
    (line : Line)
    (scope : Scope) : Scope :=
  { names := scope.names ++ line.declared?.toList
    held := (scope.held ++ line.stored).filter
      (line.freed? ≠ some ·)
    gone := scope.gone ++ line.freed?.toList.map HeapPlace.owner }

/-
  The open scopes, the innermost first, and the variables of
  loops that were ever declared.
-/
structure Scoping where
  scopes : List Scope
  taken : List Local := []
  deriving DecidableEq, Repr

namespace Scoping

/- Before the first line, only the main function is open. -/
def start : Scoping :=
  { scopes := [{}] }

/- The variables that are declared in open scopes. -/
def known
    (state : Scoping) : List Local :=
  state.scopes.flatMap Scope.names

/-
  What a line makes of the open scopes.  The head of a loop
  declares its index in the scope that it opens.
-/
def after
    (state : Scoping)
    (line : Line) : Scoping :=
  let outer := state.scopes.drop line.closes
  { scopes :=
      if line.opens = 0 then
        outer.modifyHead (Scope.take line)
      else
        Scope.take line {} :: outer
    taken := state.taken ++
      line.declared?.toList.filter (·.loop?.isSome) }

end Scoping

/- The line may stand where these scopes are open. -/
structure Line.Fits
    (state : Scoping)
    (line : Line) : Prop where
  closes_lt : line.closes < state.scopes.length
  emptied : ∀ scope ∈ state.scopes.take line.closes,
    scope.held = []
  fresh : ∀ l, line.declared? = some l →
    l ∉ state.known ∧ l ∉ state.taken
  known : line.freed? = none → ∀ l ∈ line.locals,
    line.declared? = some l ∨
      ∃ scope ∈ state.scopes.drop line.closes, l ∈ scope.names
  alive : line.freed? = none → ∀ l ∈ line.locals,
    ∀ scope ∈ state.scopes, l ∉ scope.gone
  holds : ∀ place, line.freed? = some place →
    ∃ scope lower, state.scopes = scope :: lower ∧
      place ∈ scope.held

namespace Scoping

/- Lines that fit lead from some open scopes to others. -/
inductive Passes : Scoping → List Line → Scoping → Prop where
  | nil (state : Scoping) : Passes state [] state
  | cons
      {state final : Scoping}
      {line : Line}
      {lines : List Line}
      (hFirst : line.Fits state)
      (hRest : Passes (state.after line) lines final) :
      Passes state (line :: lines) final

namespace Passes

theorem append
    {state between final : Scoping}
    {a b : List Line}
    (ha : Passes state a between)
    (hb : Passes between b final) :
    Passes state (a ++ b) final := by
  induction ha with
  | nil => exact hb
  | cons hFirst _ ih => exact .cons hFirst (ih hb)

theorem split
    {state final : Scoping}
    {a b : List Line}
    (h : Passes state (a ++ b) final) :
    ∃ between, Passes state a between ∧
      Passes between b final := by
  induction a generalizing state with
  | nil => exact ⟨state, .nil state, h⟩
  | cons line a ih =>
      cases h with
      | cons hFirst hRest =>
          rcases ih hRest with ⟨between, ha, hb⟩
          exact ⟨between, .cons hFirst ha, hb⟩

theorem single
    {state : Scoping}
    {line : Line}
    (h : line.Fits state) :
    Passes state [line] (state.after line) :=
  .cons h (.nil _)

end Passes

end Scoping

------------------------------------------------------------
-- Levels
------------------------------------------------------------

namespace Line

theorem opens_eq
    (line : Line) :
    line.opens = 0 ∨ line.opens = 1 := by
  cases line <;> simp [opens]

/- A line that frees a place neither opens nor closes a scope. -/
theorem opens_closes_of_freed?
    {line : Line}
    {place : HeapPlace}
    (h : line.freed? = some place) :
    line.opens = 0 ∧ line.closes = 0 := by
  cases line with
  | free temp => exact ⟨rfl, rfl⟩
  | freeItem loop index => exact ⟨rfl, rfl⟩
  | _ => cases h

/-
  How many scopes are open behind the lines, if so many are
  open before them and no others are ever closed.
-/
def level? : Nat → List Line → Option Nat
  | n, [] => some n
  | n, line :: lines =>
      if line.closes ≤ n then
        level? (n - line.closes + line.opens) lines
      else
        none

theorem level?_cons_eq_some
    {n m : Nat}
    {line : Line}
    {lines : List Line}
    (h : level? n (line :: lines) = some m) :
    line.closes ≤ n ∧
      level? (n - line.closes + line.opens) lines = some m := by
  rw [level?] at h
  split at h
  · rename_i hCloses
    exact ⟨hCloses, h⟩
  · cases h

theorem level?_append
    (n : Nat)
    (a b : List Line) :
    level? n (a ++ b) = (level? n a).bind (level? · b) := by
  induction a generalizing n with
  | nil => rfl
  | cons line a ih =>
      rw [List.cons_append, level?, level?]
      split
      · exact ih _
      · rfl

theorem level?_concat
    {n m k : Nat}
    {lines : List Line}
    {line : Line}
    (h : level? n lines = some m)
    (hCloses : line.closes ≤ m)
    (hLevel : k + line.closes = m + line.opens) :
    level? n (lines ++ [line]) = some k := by
  rw [level?_append, h, Option.bind_some, level?,
    if_pos hCloses, level?, Option.some.injEq]
  omega

/- A line needs as many open scopes as it closes. -/
theorem staysAbove_lexemes_append
    {line : Line}
    (h : line.IsLegible)
    (n : Nat)
    (rest : List Lexeme) :
    StaysAbove n (line.lexemes ++ rest) ↔
      line.closes ≤ n ∧
        StaysAbove (n - line.closes + line.opens : Nat) rest := by
  have hLine := unclosed_lexemes h
  constructor
  · intro hAbove
    have hCloses : line.closes ≤ n := by
      have hBrace : ([.sign '\x7d'] : List Lexeme) <+:
          line.lexemes → 1 ≤ n := by
        intro hPrefix
        have hCount := hAbove _
          (hPrefix.trans (List.prefix_append _ _))
        have hUnclosed :
            unclosed [.sign '\x7d'] = -1 := by
          decide
        omega
      cases line with
      | close => exact hBrace (by decide +kernel)
      | openElse => exact hBrace (by decide +kernel)
      | _ => exact Nat.zero_le n
    refine ⟨hCloses, ?_⟩
    intro part hPart
    have hCount := hAbove (line.lexemes ++ part)
      ((List.prefix_append_right_inj _).mpr hPart)
    rw [unclosed_append, hLine.1] at hCount
    omega
  · rintro ⟨hCloses, hRest⟩
    refine staysAbove_append ?_ ?_
    · intro part hPart
      have hCount := hLine.2 part hPart
      omega
    · have hLevel : (n : Int) + unclosed line.lexemes =
          (n - line.closes + line.opens : Nat) := by
        rw [hLine.1]
        omega
      rw [hLevel]
      exact hRest

/- The text of lines closes no others if the lines do not. -/
theorem staysAbove_flatMap_iff
    {lines : List Line}
    (h : ∀ line ∈ lines, line.IsLegible)
    (n : Nat) :
    StaysAbove n (lines.flatMap lexemes) ↔
      ∃ m, level? n lines = some m := by
  induction lines generalizing n with
  | nil => simp [staysAbove_nil, level?]
  | cons line lines ih =>
      rw [List.forall_mem_cons] at h
      rw [List.flatMap_cons, staysAbove_lexemes_append h.1,
        ih h.2, level?]
      by_cases hCloses : line.closes ≤ n
      · simp [hCloses]
      · simp [hCloses]

theorem unclosed_flatMap
    {lines : List Line}
    (h : ∀ line ∈ lines, line.IsLegible)
    {n m : Nat}
    (hLevel : level? n lines = some m) :
    unclosed (lines.flatMap lexemes) = (m : Int) - n := by
  induction lines generalizing n with
  | nil =>
      rw [level?, Option.some.injEq] at hLevel
      simp [hLevel]
  | cons line lines ih =>
      rw [List.forall_mem_cons] at h
      rcases level?_cons_eq_some hLevel with
        ⟨hCloses, hLevel⟩
      rw [List.flatMap_cons, unclosed_append,
        (unclosed_lexemes h.1).1, ih h.2 hLevel]
      omega

end Line

namespace Scoping

------------------------------------------------------------
-- One Line
------------------------------------------------------------

/- A line that fits leaves a scope open. -/
theorem exists_outer
    {state : Scoping}
    {line : Line}
    (h : line.closes < state.scopes.length) :
    ∃ first rest,
      state.scopes.drop line.closes = first :: rest := by
  apply List.exists_cons_of_length_pos
  rw [List.length_drop]
  omega

/-
  A scope that a line does not close keeps its place, and
  only the innermost one is changed.
-/
theorem exists_after_scopes
    {state : Scoping}
    {line : Line}
    {upper lower : List Scope}
    {scope : Scope}
    (h : state.scopes = upper ++ scope :: lower)
    (hCloses : line.closes ≤ upper.length) :
    ∃ behind next,
      (state.after line).scopes = behind ++ next :: lower ∧
        behind.length + line.closes =
          upper.length + line.opens ∧
        (next = scope ∧ behind ≠ [] ∨
          next = scope.take line ∧ behind = []) := by
  have hOuter : state.scopes.drop line.closes =
      upper.drop line.closes ++ scope :: lower := by
    rw [h, List.drop_append_of_le_length hCloses]
  have hLength : (upper.drop line.closes).length +
      line.closes = upper.length := by
    rw [List.length_drop]
    omega
  rcases line.opens_eq with hOpens | hOpens
  · cases hUpper : upper.drop line.closes with
    | nil =>
        refine ⟨[], scope.take line, ?_, ?_,
          Or.inr ⟨rfl, rfl⟩⟩
        · simp [after, hOuter, hUpper, hOpens]
        · rw [hUpper] at hLength
          simp only [List.length_nil] at hLength ⊢
          omega
    | cons first rest =>
        refine ⟨first.take line :: rest, scope, ?_, ?_,
          Or.inl ⟨rfl, by simp⟩⟩
        · simp [after, hOuter, hUpper, hOpens]
        · rw [hUpper] at hLength
          simp only [List.length_cons] at hLength ⊢
          omega
  · refine ⟨Scope.take line {} :: upper.drop line.closes,
      scope, ?_, ?_, Or.inl ⟨rfl, by simp⟩⟩
    · simp [after, hOuter, hOpens]
    · rw [List.length_cons]
      omega

/-
  A scope behind a line is one that the line opens, or one
  from before it.
-/
theorem exists_before_scopes
    {state : Scoping}
    {line : Line}
    (hCloses : line.closes < state.scopes.length)
    {behind lower : List Scope}
    {next : Scope}
    (h : (state.after line).scopes =
      behind ++ next :: lower) :
    (behind = [] ∧ next = Scope.take line {}) ∨
      ∃ upper scope,
        state.scopes = upper ++ scope :: lower ∧
          line.closes ≤ upper.length ∧
          behind.length + line.closes =
            upper.length + line.opens ∧
          (next = scope ∧ behind ≠ [] ∨
            next = scope.take line ∧ behind = []) := by
  have hSplit :=
    List.take_append_drop line.closes state.scopes
  have hLength : (state.scopes.take line.closes).length =
      line.closes := by
    rw [List.length_take]
    omega
  rcases line.opens_eq with hOpens | hOpens
  · rcases exists_outer hCloses with ⟨first, rest, hOuter⟩
    rw [hOuter] at hSplit
    simp only [after, hOuter, hOpens, if_true,
      List.modifyHead_cons] at h
    right
    cases behind with
    | nil =>
        rw [List.nil_append, List.cons.injEq] at h
        refine ⟨state.scopes.take line.closes, first, ?_, ?_,
          ?_, Or.inr ⟨h.1.symm, rfl⟩⟩
        · rw [← h.2, hSplit]
        · omega
        · rw [List.length_nil]
          omega
    | cons top others =>
        rw [List.cons_append, List.cons.injEq] at h
        refine ⟨state.scopes.take line.closes ++
          first :: others, next, ?_, ?_, ?_,
          Or.inl ⟨rfl, by simp⟩⟩
        · rw [List.append_assoc, List.cons_append, ← h.2,
            hSplit]
        · rw [List.length_append]
          omega
        · rw [List.length_append, List.length_cons,
            List.length_cons]
          omega
  · simp only [after, hOpens] at h
    cases behind with
    | nil =>
        rw [List.nil_append] at h
        exact Or.inl ⟨rfl, (List.cons.inj h).1.symm⟩
    | cons top others =>
        right
        have hOuter := (List.cons.inj h).2
        refine ⟨state.scopes.take line.closes ++ others, next,
          ?_, ?_, ?_, Or.inl ⟨rfl, by simp⟩⟩
        · rw [hOuter] at hSplit
          rw [List.append_assoc]
          exact hSplit.symm
        · rw [List.length_append]
          omega
        · rw [List.length_append, List.length_cons]
          omega

/- A line declares its variable in the innermost scope behind it. -/
theorem exists_scope_of_declared?
    {state : Scoping}
    {line : Line}
    (hCloses : line.closes < state.scopes.length)
    {l : Local}
    (h : line.declared? = some l) :
    ∃ scope lower,
      (state.after line).scopes = scope :: lower ∧
        l ∈ scope.names ∧
        line.stored.filter (line.freed? ≠ some ·) ⊆
          scope.held := by
  have hTake (scope : Scope) :
      l ∈ (scope.take line).names ∧
        line.stored.filter (line.freed? ≠ some ·) ⊆
          (scope.take line).held := by
    simp [Scope.take, h]
  rcases exists_outer hCloses with ⟨first, rest, hOuter⟩
  rcases line.opens_eq with hOpens | hOpens
  · exact ⟨first.take line, rest,
      by simp [after, hOuter, hOpens], hTake first⟩
  · exact ⟨Scope.take line {}, first :: rest,
      by simp [after, hOuter, hOpens], hTake {}⟩

------------------------------------------------------------
-- Sound Scopes
------------------------------------------------------------

/-
  No name is declared twice in the open scopes, and a scope
  holds places of its own variables only.
-/
structure IsSound
    (state : Scoping) : Prop where
  nodup : state.known.Nodup
  owned : ∀ scope ∈ state.scopes, ∀ place ∈ scope.held,
    place.owner ∈ scope.names

theorem isSound_start : start.IsSound := by
  constructor
  · decide
  · intro scope hScope place hPlace
    rw [List.mem_singleton.mp hScope] at hPlace
    cases hPlace

/- A scope owns what it takes from a line, too. -/
theorem owned_take
    (line : Line)
    {scope : Scope}
    (h : ∀ place ∈ scope.held, place.owner ∈ scope.names) :
    ∀ place ∈ (scope.take line).held,
      place.owner ∈ (scope.take line).names := by
  intro place hPlace
  rcases List.mem_append.mp (List.mem_filter.mp hPlace).1 with
    hOld | hNew
  · exact List.mem_append_left _ (h place hOld)
  · apply List.mem_append_right
    rw [Line.declared?_of_mem_stored hNew]
    exact List.mem_singleton_self _

/- The names behind a line: those left open and the declared one. -/
theorem known_after
    {state : Scoping}
    {line : Line}
    (hCloses : line.closes < state.scopes.length) :
    (state.after line).known.Perm
      (line.declared?.toList ++
        (state.scopes.drop line.closes).flatMap
          Scope.names) := by
  rcases exists_outer hCloses with ⟨first, rest, hOuter⟩
  rcases line.opens_eq with hOpens | hOpens
  · simp only [known, after, hOuter, hOpens, if_true,
      List.modifyHead_cons, List.flatMap_cons, Scope.take]
    rw [← List.append_assoc]
    exact List.perm_append_comm.append_right _
  · simp [known, after, hOpens, Scope.take]

theorem IsSound.after
    {state : Scoping}
    (h : state.IsSound)
    {line : Line}
    (hFits : line.Fits state) :
    (state.after line).IsSound := by
  have hSplit :=
    List.take_append_drop line.closes state.scopes
  constructor
  · rw [(known_after hFits.closes_lt).nodup_iff,
      List.nodup_append]
    have hKnown := h.nodup
    rw [known, ← hSplit, List.flatMap_append,
      List.nodup_append] at hKnown
    refine ⟨?_, hKnown.2.1, ?_⟩
    · cases line.declared? <;> simp
    · intro l hl other hOther
      rintro rfl
      have hDeclared : line.declared? = some l := by
        simpa using hl
      apply (hFits.fresh l hDeclared).1
      rw [known, ← hSplit, List.flatMap_append]
      exact List.mem_append_right _ hOther
  · intro scope hScope
    rcases exists_outer hFits.closes_lt with
      ⟨first, rest, hOuter⟩
    have hOuterOwned : ∀ scope ∈ first :: rest,
        ∀ place ∈ scope.held, place.owner ∈ scope.names := by
      intro scope hMem
      apply h.owned
      rw [← hSplit, hOuter]
      exact List.mem_append_right _ hMem
    rcases line.opens_eq with hOpens | hOpens
    · simp only [Scoping.after, hOuter, hOpens, if_true,
        List.modifyHead_cons] at hScope
      rcases List.mem_cons.mp hScope with rfl | hRest
      · exact owned_take line
          (hOuterOwned first List.mem_cons_self)
      · exact hOuterOwned scope (List.mem_cons_of_mem _ hRest)
    · simp only [Scoping.after, hOuter, hOpens] at hScope
      rcases List.mem_cons.mp hScope with rfl | hRest
      · exact owned_take line (by simp)
      · exact hOuterOwned scope hRest

/- A name is declared in one of the open scopes only. -/
theorem IsSound.not_mem_names
    {state : Scoping}
    (h : state.IsSound)
    {top scope : Scope}
    {upper lower : List Scope}
    (hScopes : state.scopes = top :: upper ++ scope :: lower)
    {l : Local}
    (hTop : l ∈ top.names) :
    l ∉ scope.names := by
  intro hScope
  have hKnown := h.nodup
  rw [known, hScopes, List.cons_append, List.flatMap_cons,
    List.flatMap_append, List.flatMap_cons,
    List.nodup_append] at hKnown
  refine hKnown.2.2 l hTop l ?_ rfl
  simp [hScope]

theorem Passes.isSound
    {state final : Scoping}
    {lines : List Line}
    (h : Passes state lines final)
    (hSound : state.IsSound) :
    final.IsSound := by
  induction h with
  | nil => exact hSound
  | cons hFirst _ ih => exact ih (hSound.after hFirst)

------------------------------------------------------------
-- While a Scope Is Open
------------------------------------------------------------

end Scoping

/-
  What a scope becomes while it is open.  It forgets no
  names, and it gets nothing back that it does not hold.
-/
structure Scope.Grows
    (scope later : Scope) : Prop where
  names : scope.names ⊆ later.names
  gone : scope.gone ⊆ later.gone
  held : ∀ place ∈ later.held, place.owner ∈ scope.names →
    place ∈ scope.held

theorem Scope.Grows.refl
    (scope : Scope) :
    scope.Grows scope :=
  ⟨List.Subset.refl _, List.Subset.refl _,
    fun _ hPlace _ => hPlace⟩

theorem Scope.Grows.trans
    {scope later last : Scope}
    (h : scope.Grows later)
    (hLast : later.Grows last) :
    scope.Grows last :=
  ⟨fun _ hl => hLast.names (h.names hl),
    fun _ hl => hLast.gone (h.gone hl),
    fun place hPlace hOwner => h.held place
      (hLast.held place hPlace (h.names hOwner)) hOwner⟩

/- A scope grows by a line that declares a name new to it. -/
theorem Scope.grows_take
    {scope : Scope}
    {line : Line}
    (h : ∀ l, line.declared? = some l → l ∉ scope.names) :
    scope.Grows (scope.take line) := by
  refine ⟨List.subset_append_left _ _,
    List.subset_append_left _ _, ?_⟩
  intro place hPlace hOwner
  rcases List.mem_append.mp (List.mem_filter.mp hPlace).1 with
    hOld | hNew
  · exact hOld
  · exact absurd hOwner
      (h _ (Line.declared?_of_mem_stored hNew))

namespace Scoping

/- A name of an open scope is known. -/
theorem mem_known
    {state : Scoping}
    {upper lower : List Scope}
    {scope : Scope}
    (h : state.scopes = upper ++ scope :: lower)
    {l : Local}
    (hName : l ∈ scope.names) :
    l ∈ state.known := by
  rw [known, h]
  simp [hName]

namespace Passes

/- As long as no line closes it, a scope keeps its place and grows. -/
theorem exists_grown
    {state final : Scoping}
    {lines : List Line}
    (h : Passes state lines final)
    {upper lower : List Scope}
    {scope : Scope}
    (hScopes : state.scopes = upper ++ scope :: lower)
    {n : Nat}
    (hLevel : Line.level? upper.length lines = some n) :
    ∃ behind later,
      final.scopes = behind ++ later :: lower ∧
        behind.length = n ∧ scope.Grows later := by
  induction h generalizing upper scope with
  | nil =>
      exact ⟨upper, scope, hScopes, Option.some.inj hLevel,
        .refl scope⟩
  | @cons state final line lines hFirst hRest ih =>
      rcases Line.level?_cons_eq_some hLevel with
        ⟨hCloses, hLevel⟩
      rcases exists_after_scopes hScopes hCloses with
        ⟨behind, next, hAfter, hLength, hNext⟩
      have hBehind : upper.length - line.closes + line.opens =
          behind.length := by
        omega
      rw [hBehind] at hLevel
      rcases ih hAfter hLevel with
        ⟨last, later, hFinal, hLast, hGrows⟩
      refine ⟨last, later, hFinal, hLast, ?_⟩
      rcases hNext with ⟨rfl, _⟩ | ⟨rfl, _⟩
      · exact hGrows
      · refine (Scope.grows_take ?_).trans hGrows
        intro l hDeclared hName
        exact (hFirst.fresh l hDeclared).1
          (mem_known hScopes hName)

/-
  A name is not declared again before the scope of its
  declaration is closed.
-/
theorem not_redeclared
    {state final : Scoping}
    {a b c : List Line}
    {first second : Line}
    (h : Passes state (a ++ first :: (b ++ second :: c)) final)
    {l : Local}
    (hFirst : first.declared? = some l)
    (hSecond : second.declared? = some l) :
    Line.level? 0 b = none := by
  rcases h.split with ⟨before, _, hRest⟩
  cases hRest with
  | cons hFits hRest =>
      rcases hRest.split with ⟨between, hBetween, hLast⟩
      cases hLast with
      | cons hAgain _ =>
          rcases exists_scope_of_declared? hFits.closes_lt hFirst
            with ⟨scope, lower, hScope, hName, _⟩
          cases hLevel : Line.level? 0 b with
          | none => rfl
          | some n =>
              have hScopes : (before.after first).scopes =
                  [] ++ scope :: lower := hScope
              rcases hBetween.exists_grown hScopes hLevel with
                ⟨behind, later, hLater, _, hGrows⟩
              exact absurd
                (mem_known hLater (hGrows.names hName))
                (hAgain.fresh l hSecond).1

/- The variables of a loop are declared at most once. -/
theorem count_declared_le_one
    {state final : Scoping}
    {lines : List Line}
    (h : Passes state lines final)
    {l : Local}
    (hLoop : l.loop?.isSome = true) :
    (lines.filterMap Line.declared?).count l ≤ 1 ∧
      (l ∈ state.taken →
        (lines.filterMap Line.declared?).count l = 0) := by
  induction h with
  | nil => simp
  | @cons state final line lines hFirst hRest ih =>
      cases hDeclared : line.declared? with
      | none =>
          have hTaken : (state.after line).taken =
              state.taken := by
            simp [after, hDeclared]
          rw [hTaken] at ih
          rwa [List.filterMap_cons_none hDeclared]
      | some other =>
          rw [List.filterMap_cons_some hDeclared]
          by_cases hSame : other = l
          · subst hSame
            have hFresh := (hFirst.fresh _ hDeclared).2
            have hTaken : other ∈ (state.after line).taken := by
              simp [after, hDeclared, hLoop]
            rw [List.count_cons_self, ih.2 hTaken]
            exact ⟨Nat.le_refl 1, fun h => absurd h hFresh⟩
          · rw [List.count_cons_of_ne hSame]
            refine ⟨ih.1, ?_⟩
            intro hTaken
            exact ih.2 (List.mem_append_left _ hTaken)

end Passes

------------------------------------------------------------
-- Where Things Come From
------------------------------------------------------------

/-
  The lines so far declared the names of the open scopes and
  filled the places that they hold.  Each was done when its
  scope was the innermost one, which has been open since.
-/
structure IsTraced
    (lines : List Line)
    (state : Scoping) : Prop where
  names : ∀ {upper lower scope l},
    state.scopes = upper ++ scope :: lower →
    l ∈ scope.names →
    ∃ a line b, lines = a ++ line :: b ∧
      line.declared? = some l ∧
      Line.level? 0 b = some upper.length
  held : ∀ {upper lower scope place},
    state.scopes = upper ++ scope :: lower →
    place ∈ scope.held →
    ∃ a line b, lines = a ++ line :: b ∧
      place ∈ line.stored ∧
      Line.level? 0 b = some upper.length ∧
      ∀ other ∈ b, other.freed? ≠ some place

theorem isTraced_start : start.IsTraced [] := by
  have hEmpty {upper lower : List Scope} {scope : Scope}
      (h : start.scopes = upper ++ scope :: lower) :
      scope = {} := by
    apply List.mem_singleton.mp
    change scope ∈ start.scopes
    rw [h]
    simp
  constructor
  · intro upper lower scope l hScopes hName
    rw [hEmpty hScopes] at hName
    cases hName
  · intro upper lower scope place hScopes hHeld
    rw [hEmpty hScopes] at hHeld
    cases hHeld

/- A line that frees a place leaves what outer scopes hold. -/
theorem IsSound.freed?_ne
    {state : Scoping}
    (h : state.IsSound)
    {line : Line}
    (hFits : line.Fits state)
    {top scope : Scope}
    {upper lower : List Scope}
    (hScopes : state.scopes = top :: upper ++ scope :: lower)
    {place : HeapPlace}
    (hOwner : place.owner ∈ scope.names) :
    line.freed? ≠ some place := by
  intro hFreed
  rcases hFits.holds place hFreed with
    ⟨first, rest, hFirst, hHeld⟩
  have hTop : first = top := by
    rw [hScopes] at hFirst
    exact (List.cons.inj hFirst).1.symm
  have hName := h.owned first (by simp [hFirst]) place hHeld
  rw [hTop] at hName
  exact h.not_mem_names hScopes hName hOwner

theorem IsTraced.after
    {lines : List Line}
    {state : Scoping}
    (h : state.IsTraced lines)
    (hSound : state.IsSound)
    {line : Line}
    (hFits : line.Fits state) :
    (state.after line).IsTraced (lines ++ [line]) := by
  constructor
  · intro upper lower scope l hScopes hName
    have hNew (hDeclared : l ∈ line.declared?.toList)
        (hUpper : upper = []) :
        ∃ a r b, lines ++ [line] = a ++ r :: b ∧
          r.declared? = some l ∧
          Line.level? 0 b = some upper.length :=
      ⟨lines, line, [], rfl, by simpa using hDeclared,
        by rw [hUpper]; rfl⟩
    rcases exists_before_scopes hFits.closes_lt hScopes with
      ⟨hUpper, rfl⟩ | ⟨before, old, hBefore, hCloses, hLength,
        hNext⟩
    · exact hNew (by simpa [Scope.take] using hName) hUpper
    · have hOld (hOldName : l ∈ old.names) :
          ∃ a r b, lines ++ [line] = a ++ r :: b ∧
            r.declared? = some l ∧
            Line.level? 0 b = some upper.length := by
        rcases h.names hBefore hOldName with
          ⟨a, r, b, rfl, hr, hLevel⟩
        exact ⟨a, r, b ++ [line], by simp, hr,
          Line.level?_concat hLevel hCloses hLength⟩
      rcases hNext with ⟨rfl, _⟩ | ⟨rfl, hUpper⟩
      · exact hOld hName
      · rcases List.mem_append.mp hName with hName | hDeclared
        · exact hOld hName
        · exact hNew hDeclared hUpper
  · intro upper lower scope place hScopes hHeld
    have hNew (hStored : place ∈ line.stored)
        (hUpper : upper = []) :
        ∃ a r b, lines ++ [line] = a ++ r :: b ∧
          place ∈ r.stored ∧
          Line.level? 0 b = some upper.length ∧
          ∀ other ∈ b, other.freed? ≠ some place :=
      ⟨lines, line, [], rfl, hStored, by rw [hUpper]; rfl,
        by simp⟩
    rcases exists_before_scopes hFits.closes_lt hScopes with
      ⟨hUpper, rfl⟩ | ⟨before, old, hBefore, hCloses, hLength,
        hNext⟩
    · have hStored := (List.mem_filter.mp hHeld).1
      exact hNew (by simpa using hStored) hUpper
    · have hOld (hOldHeld : place ∈ old.held)
          (hKept : line.freed? ≠ some place) :
          ∃ a r b, lines ++ [line] = a ++ r :: b ∧
            place ∈ r.stored ∧
            Line.level? 0 b = some upper.length ∧
            ∀ other ∈ b, other.freed? ≠ some place := by
        rcases h.held hBefore hOldHeld with
          ⟨a, r, b, rfl, hr, hLevel, hNone⟩
        refine ⟨a, r, b ++ [line], by simp, hr,
          Line.level?_concat hLevel hCloses hLength, ?_⟩
        rw [List.forall_mem_append]
        exact ⟨hNone, by simpa using hKept⟩
      rcases hNext with ⟨rfl, hUpper⟩ | ⟨rfl, hUpper⟩
      · refine hOld hHeld ?_
        intro hFreed
        have hOwner := hSound.owned _ (by simp [hBefore]) place
          hHeld
        rcases Line.opens_closes_of_freed? hFreed with
          ⟨hOpens, hClosed⟩
        cases before with
        | nil =>
            apply hUpper
            rw [List.length_nil] at hLength
            exact List.length_eq_zero_iff.mp (by omega)
        | cons top rest =>
            exact hSound.freed?_ne hFits hBefore hOwner hFreed
      · have hMem := List.mem_filter.mp hHeld
        rcases List.mem_append.mp hMem.1 with hOldHeld | hStored
        · exact hOld hOldHeld (by simpa using hMem.2)
        · exact hNew hStored hUpper

namespace Passes

theorem isTraced
    {state final : Scoping}
    {before lines : List Line}
    (h : Passes state lines final)
    (hSound : state.IsSound)
    (hTraced : state.IsTraced before) :
    final.IsTraced (before ++ lines) := by
  induction h generalizing before with
  | nil => simpa using hTraced
  | cons hFirst _ ih =>
      have hLast := ih (hSound.after hFirst)
        (hTraced.after hSound hFirst)
      simpa using hLast

------------------------------------------------------------
-- What Becomes of Places
------------------------------------------------------------

/-
  If nothing is held in the end, a place that a scope holds
  is freed while the scope is the innermost one.
-/
theorem exists_free
    {state final : Scoping}
    {lines : List Line}
    (h : Passes state lines final)
    (hSound : state.IsSound)
    (hFinal : ∀ scope ∈ final.scopes, scope.held = [])
    {upper lower : List Scope}
    {scope : Scope}
    (hScopes : state.scopes = upper ++ scope :: lower)
    {place : HeapPlace}
    (hHeld : place ∈ scope.held) :
    ∃ b line c, lines = b ++ line :: c ∧
      line.freed? = some place ∧
      Line.level? upper.length b = some 0 ∧
      ∀ other ∈ b, other.freed? ≠ some place := by
  induction h generalizing upper scope with
  | nil state =>
      rw [hFinal scope (by simp [hScopes])] at hHeld
      cases hHeld
  | @cons state final line lines hFirst hRest ih =>
      have hOwner := hSound.owned scope (by simp [hScopes])
        place hHeld
      by_cases hFreed : line.freed? = some place
      · cases upper with
        | nil =>
            exact ⟨[], line, lines, rfl, hFreed, rfl, by simp⟩
        | cons top rest =>
            exact absurd hFreed
              (hSound.freed?_ne hFirst hScopes hOwner)
      · by_cases hCloses : line.closes ≤ upper.length
        · rcases exists_after_scopes hScopes hCloses with
            ⟨behind, next, hAfter, hLength, hNext⟩
          have hNextHeld : place ∈ next.held := by
            rcases hNext with ⟨rfl, _⟩ | ⟨rfl, _⟩
            · exact hHeld
            · exact List.mem_filter.mpr
                ⟨List.mem_append_left _ hHeld,
                  by simpa using hFreed⟩
          rcases ih (hSound.after hFirst) hFinal hAfter hNextHeld
            with ⟨b, r, c, rfl, hr, hLevel, hNone⟩
          refine ⟨line :: b, r, c, rfl, hr, ?_, ?_⟩
          · have hBehind : upper.length - line.closes +
                line.opens = behind.length := by
              omega
            rw [Line.level?, if_pos hCloses, hBehind]
            exact hLevel
          · rw [List.forall_mem_cons]
            exact ⟨hFreed, hNone⟩
        · -- The scope would be closed with the place in it.
          have hClosed : scope ∈
              state.scopes.take line.closes := by
            rw [hScopes, List.take_append]
            apply List.mem_append_right
            obtain ⟨n, hn⟩ : ∃ n, line.closes - upper.length =
                n + 1 := ⟨line.closes - upper.length - 1,
              by omega⟩
            rw [hn, List.take_succ_cons]
            exact List.mem_cons_self
          rw [hFirst.emptied scope hClosed] at hHeld
          cases hHeld

/-
  As long as the scope is open, no line uses a variable of
  which a place is freed, but to free another of its places.
-/
theorem exists_other_free
    {state final : Scoping}
    {d e : List Line}
    {line : Line}
    (h : Passes state (d ++ line :: e) final)
    (hSound : state.IsSound)
    {scope : Scope}
    {lower : List Scope}
    (hScopes : state.scopes = scope :: lower)
    {place : HeapPlace}
    (hName : place.owner ∈ scope.names)
    (hGone : place.owner ∈ scope.gone)
    (hFree : place ∉ scope.held)
    {n : Nat}
    (hLevel : Line.level? 0 d = some n)
    (hUse : place.owner ∈ line.locals) :
    ∃ other, line.freed? = some other ∧ other ≠ place := by
  rcases h.split with ⟨between, hBefore, hRest⟩
  have hHead : state.scopes = [] ++ scope :: lower := hScopes
  rcases hBefore.exists_grown hHead hLevel with
    ⟨behind, later, hLater, _, hGrows⟩
  have hBetween := hBefore.isSound hSound
  cases hRest with
  | cons hFits _ =>
      cases hFreed : line.freed? with
      | none =>
          exact absurd (hGrows.gone hGone)
            (hFits.alive hFreed _ hUse later (by simp [hLater]))
      | some other =>
          refine ⟨other, rfl, ?_⟩
          rintro rfl
          cases behind with
          | nil =>
              rcases hFits.holds other hFreed with
                ⟨first, rest, hFirst, hHeld⟩
              have hTop : first = later := by
                rw [hLater] at hFirst
                exact (List.cons.inj hFirst).1.symm
              rw [hTop] at hHeld
              exact hFree (hGrows.held other hHeld hName)
          | cons top rest =>
              exact hBetween.freed?_ne hFits hLater
                (hGrows.names hName) hFreed

end Passes

end Scoping

end ShellToC
