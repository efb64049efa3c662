import ShellToC.Proofs.Locals

/-
  This file finds the places of a program that hold text on
  the heap: where they are filled and where they are freed.

  Text on the heap comes from two helpers only.  A line that
  calls one of them declares a variable, and the calls are
  all that the variable is filled with.

  Key definitions include:
    * `HeapPlace`
    * `Lexeme.Stores`
    * `Lexeme.freeing`
    * `Line.stored`
    * `Line.freed?`

  Main declarations:
    * `Line.stores_lexemes`
    * `Line.freed?_of_lexemes_eq`
    * `Line.exists_freed?`
-/

namespace ShellToC

open Lexeme

------------------------------------------------------------
-- Places
------------------------------------------------------------

/- A variable, or one of the items of an array. -/
structure HeapPlace where
  owner : Local
  index : Option Nat
  deriving DecidableEq, Repr

/- The text of the place, as it is read. -/
def HeapPlace.lexemes
    (place : HeapPlace) : List Lexeme :=
  place.owner.lexeme ::
    match place.index with
    | none => []
    | some index =>
        [.sign '[', .word (Text.ofNat index), .sign ']']

/- A number is known by its digits. -/
theorem Text.eq_of_ofNat_eq
    {m n : Nat}
    (h : ofNat m = ofNat n) :
    m = n := by
  have hValue := congrArg (Nat.ofDigitChars 10 · 0) h
  simpa [ofNat, Nat.ofDigitChars_ten_toDigits] using hValue

/- No two places have the same text. -/
theorem HeapPlace.eq_of_lexemes_eq
    {a b : HeapPlace}
    (h : a.lexemes = b.lexemes) :
    a = b := by
  rcases a with ⟨owner, index⟩
  rcases b with ⟨other, place⟩
  have hOwner : owner = other :=
    Local.eq_of_name_eq
      (Lexeme.word.inj (List.cons.inj h).1)
  have hIndex := (List.cons.inj h).2
  subst hOwner
  cases index with
  | none =>
      cases place with
      | none => rfl
      | some n => cases hIndex
  | some m =>
      cases place with
      | none => cases hIndex
      | some n =>
          simp only [List.cons.injEq, Lexeme.word.injEq,
            true_and, and_true] at hIndex
          rw [Text.eq_of_ofNat_eq hIndex]

------------------------------------------------------------
-- Text on the Heap
------------------------------------------------------------

/- Whether the helper returns text that its caller has to free. -/
def Helper.allocates : Helper → Bool
  | .format => true
  | .capture => true
  | _ => false

namespace Lexeme

/- Whether the lexeme names a helper that returns text on the heap. -/
def allocates
    (l : Lexeme) : Bool :=
  l.helper?.any Helper.allocates

/- A line that frees a place. -/
def freeing
    (place : HeapPlace) : List Lexeme :=
  call "free" place.lexemes ++ [.sign ';']

/-
  A line keeps the text that it gets from the heap in these
  places: in a variable, or in the items of an array that
  are all on the heap.
-/
inductive Stores : List Lexeme → List HeapPlace → Prop where
  | none
      {ls : List Lexeme}
      (h : ls.any allocates = false) :
      Stores ls []
  | one
      (l : Local)
      {helper : Helper}
      (hHelper : helper.allocates = true)
      {args : List Lexeme}
      (hArgs : args.any allocates = false) :
      Stores
        (.word "char" :: .sign '*' :: l.lexeme :: .sign '=' ::
          call helper.name args ++ [.sign ';'])
        [⟨l, .none⟩]
  | many
      (l : Local)
      {values : List (List Lexeme)}
      (hValues : ∀ value ∈ values, ∃ helper args,
        value = call (Helper.name helper) args ∧
          helper.allocates = true ∧
          args.any allocates = false) :
      Stores
        (.word "char" :: .sign '*' :: l.lexeme :: .sign '[' ::
          .sign ']' :: .sign '=' :: Line.listLexemes values ++
          [.sign ';'])
        ((List.range values.length).map (⟨l, some ·⟩))

@[simp] theorem allocates_sign
    (c : Char) :
    allocates (.sign c) = false := rfl

@[simp] theorem allocates_helper
    (helper : Helper) :
    allocates (.word helper.name) = helper.allocates := by
  rw [allocates, helper?_word, Helper.ofName?_name]
  rfl

@[simp] theorem allocates_local
    (l : Local) :
    allocates l.lexeme = false := by
  have hLocal := l.isLocal_lexeme
  simp only [Local.lexeme, isLocal, Bool.and_eq_true,
    Option.isNone_iff_eq_none] at hLocal
  simp [allocates, Local.lexeme, hLocal.2]

/- A call that allocates, if nothing in its arguments does. -/
theorem countP_allocates_call
    {helper : Helper}
    (hHelper : helper.allocates = true)
    {args : List Lexeme}
    (hArgs : args.any allocates = false) :
    (call helper.name args).countP allocates = 1 := by
  have hNone : args.countP allocates = 0 := by
    rw [List.countP_eq_zero]
    exact List.any_eq_false.mp hArgs
  simp [call, hHelper, hNone]

theorem countP_allocates_listed
    {parts : List (List Lexeme)}
    (h : ∀ part ∈ parts, part.countP allocates = 1) :
    (listed parts).countP allocates = parts.length := by
  induction parts with
  | nil => rfl
  | cons part parts ih =>
      rw [List.forall_mem_cons] at h
      cases parts with
      | nil => simp [listed, List.intercalate, h.1]
      | cons next parts =>
          have hSplit : listed (part :: next :: parts) =
              part ++ .sign ',' :: listed (next :: parts) := by
            simp [listed, List.intercalate]
          rw [hSplit, List.countP_append,
            List.countP_cons_of_neg (by simp), h.1, ih h.2,
            List.length_cons (a := part), Nat.add_comm]

/- Every text from the heap has a place of its own. -/
theorem Stores.length_eq
    {ls : List Lexeme}
    {places : List HeapPlace}
    (h : Stores ls places) :
    places.length = ls.countP allocates := by
  have hChar : allocates (.word "char") = false := by
    decide +kernel
  cases h with
  | none h =>
      rw [List.any_eq_false] at h
      exact (List.countP_eq_zero.mpr h).symm
  | one l hHelper hArgs =>
      simp [hChar, countP_allocates_call hHelper hArgs]
  | @many l values hValues =>
      have hOne : ∀ value ∈ values,
          value.countP allocates = 1 := by
        intro value hValue
        rcases hValues value hValue with
          ⟨helper, args, rfl, hHelper, hArgs⟩
        exact countP_allocates_call hHelper hArgs
      simp [hChar, Line.listLexemes,
        countP_allocates_listed hOne]

/- What uses no such helper gets nothing from the heap. -/
theorem any_allocates_of_uses
    {ls : List Lexeme}
    {helpers : List Helper}
    (h : Uses ls helpers)
    (hHelpers : helpers.any Helper.allocates = false) :
    ls.any allocates = false := by
  rw [List.any_eq_false]
  intro l hl hAllocates
  cases hHelper : l.helper? with
  | none => simp [allocates, hHelper] at hAllocates
  | some helper =>
      have hWord : l = .word helper.name := by
        cases l with
        | word w =>
            rw [helper?_word] at hHelper
            rw [Helper.name_of_ofName? hHelper]
        | literal quote inside => cases hHelper
        | sign c => cases hHelper
      have hNamed := h.named helper (hWord ▸ hl)
      have hSpares := List.any_eq_false.mp hHelpers helper hNamed
      rw [allocates, hHelper] at hAllocates
      exact hSpares hAllocates

end Lexeme

------------------------------------------------------------
-- Helpers of Expressions
------------------------------------------------------------

theorem StringExpr.any_allocates_needs
    (e : StringExpr) :
    e.needs.any Helper.allocates = false := by
  cases e <;> rfl

theorem IntExpr.any_allocates_needs
    (e : IntExpr) :
    e.needs.any Helper.allocates = false := by
  cases e with
  | ofString e =>
      simp [needs, e.any_allocates_needs, Helper.allocates]
  | _ => rfl

theorem BoolExpr.any_allocates_needs
    (e : BoolExpr) :
    e.needs.any Helper.allocates = false := by
  induction e with
  | constant value => rfl
  | nonempty name => rfl
  | testPath test path =>
      cases test <;>
        simp [needs, path.any_allocates_needs, PathTest.helper,
          Helper.allocates]
  | compareStrings rel left right =>
      simp [needs, left.any_allocates_needs,
        right.any_allocates_needs]
  | compareInts rel left right =>
      simp [needs, left.any_allocates_needs,
        right.any_allocates_needs]
  | not e ih => exact ih

theorem ArithExpr.any_allocates_needs
    (e : ArithExpr) :
    e.needs.any Helper.allocates = false := by
  rw [needs, List.any_flatMap, List.any_eq_false]
  intro token _
  cases token <;>
    simp [Token.needs, IntExpr.any_allocates_needs]

theorem FormatCall.any_allocates_argNeeds
    (call : FormatCall) :
    call.argNeeds.any Helper.allocates = false := by
  rw [argNeeds, List.any_flatMap, List.any_eq_false]
  intro arg _
  cases arg with
  | string e => simp [FormatArg.needs, e.any_allocates_needs]
  | _ => simp [FormatArg.needs]

------------------------------------------------------------
-- Lines
------------------------------------------------------------

namespace Line

/- The places that the line fills from the heap. -/
def stored : Line → List HeapPlace
  | .declareBuilt temp _ => [⟨.temporary temp, none⟩]
  | .declareOutput _ => [⟨.temporary .output, none⟩]
  | .declareBuiltItems loop items =>
      (List.range items.length).map (⟨.items loop, some ·⟩)
  | _ => []

/- The place that the line frees. -/
def freed? : Line → Option HeapPlace
  | .free temp => some ⟨.temporary temp, none⟩
  | .freeItem loop index => some ⟨.items loop, some index⟩
  | _ => none

/- What the line gets from the heap is kept in its places. -/
theorem stores_lexemes
    {line : Line}
    (h : line.IsLegible) :
    Stores line.lexemes line.stored := by
  have hChar : ofText "char *" = [.word "char", .sign '*'] := by
    decide +kernel
  have hNone
      (hNeeds : line.needs.any Helper.allocates = false) :
      Stores line.lexemes [] :=
    .none (any_allocates_of_uses (uses_lexemes h) hNeeds)
  cases line with
  | declareBuilt temp call =>
      have hArgs := any_allocates_of_uses call.uses_arguments
        call.any_allocates_argNeeds
      have hFormat : Helper.format.allocates = true := rfl
      rw [lexemes, hChar]
      exact .one (.temporary temp) hFormat hArgs
  | declareOutput command =>
      have hArgs := any_allocates_of_uses command.uses_lexemes
        command.any_allocates_needs
      have hCapture : Helper.capture.allocates = true := rfl
      rw [lexemes, hChar]
      exact .one (.temporary .output) hCapture hArgs
  | declareBuiltItems loop items =>
      have hArray : ofText "[] = " =
          [.sign '[', .sign ']', .sign '='] := by
        decide +kernel
      have hValues : ∀ value ∈ items.map
          (FormatCall.lexemes Helper.format.name),
          ∃ helper args,
            value = call (Helper.name helper) args ∧
              helper.allocates = true ∧
              args.any allocates = false := by
        intro value hValue
        rcases List.mem_map.mp hValue with ⟨item, _, rfl⟩
        exact ⟨.format, _, rfl, rfl,
          any_allocates_of_uses item.uses_arguments
            item.any_allocates_argNeeds⟩
      have hStores := Stores.many (.items loop) hValues
      rw [List.length_map] at hStores
      rw [lexemes, hChar, hArray]
      exact hStores
  | setStatus e => exact hNone e.any_allocates_needs
  | run command =>
      exact hNone (by
        simp [needs, command.any_allocates_needs,
          Helper.allocates])
  | changeDir dir => exact hNone dir.any_allocates_needs
  | startJob command =>
      exact hNone (by
        simp [needs, command.any_allocates_needs,
          Helper.allocates])
  | exit code => exact hNone code.any_allocates_needs
  | assign name value => exact hNone value.any_allocates_needs
  | assignInt name value =>
      exact hNone (by
        simp [needs, value.any_allocates_needs,
          Helper.allocates])
  | printFormat call => exact hNone call.any_allocates_argNeeds
  | printInt value => exact hNone value.any_allocates_needs
  | declareStages commands =>
      refine hNone ?_
      rw [needs, List.any_flatMap, List.any_eq_false]
      intro command _
      simp [command.any_allocates_needs]
  | _ => exact hNone rfl

/- What is filled from the heap is declared there. -/
theorem declared?_of_mem_stored
    {line : Line}
    {place : HeapPlace}
    (h : place ∈ line.stored) :
    line.declared? = some place.owner := by
  cases line with
  | declareBuilt temp call =>
      rw [List.mem_singleton.mp h]
      rfl
  | declareOutput command =>
      rw [List.mem_singleton.mp h]
      rfl
  | declareBuiltItems loop items =>
      rcases List.mem_map.mp h with ⟨index, _, rfl⟩
      rfl
  | _ => cases h

/- A line that frees a place reads as one. -/
theorem lexemes_of_freed?
    {line : Line}
    {place : HeapPlace}
    (h : line.freed? = some place) :
    line.lexemes = freeing place := by
  cases line with
  | free temp =>
      cases h
      rfl
  | freeItem loop index =>
      cases h
      rfl
  | _ => cases h

/- Only lines that free a place name the function that does. -/
theorem exists_freed?
    {line : Line}
    (h : line.IsLegible)
    (hFree : .word "free" ∈ line.lexemes) :
    ∃ place, line.freed? = some place := by
  have hFrees := frees_of_mem_lexemes h hFree
  cases line with
  | free temp => exact ⟨_, rfl⟩
  | freeItem loop index => exact ⟨_, rfl⟩
  | _ => cases hFrees

/- A line that reads as one that frees a place frees it. -/
theorem freed?_of_lexemes_eq
    {line : Line}
    (h : line.IsLegible)
    {place : HeapPlace}
    (hEq : line.lexemes = freeing place) :
    line.freed? = some place := by
  have hFree : .word "free" ∈ line.lexemes := by
    rw [hEq]
    exact List.mem_cons_self
  rcases exists_freed? h hFree with ⟨other, hOther⟩
  have hSame : freeing other = freeing place := by
    rw [← lexemes_of_freed? hOther, hEq]
  have hText : other.lexemes = place.lexemes := by
    simpa [freeing, call] using hSame
  rw [hOther, HeapPlace.eq_of_lexemes_eq hText]

/- A line that frees a place uses its variable, and no other. -/
theorem locals_of_freed?
    {line : Line}
    {place : HeapPlace}
    (h : line.freed? = some place) :
    line.locals = [place.owner] := by
  cases line with
  | free temp =>
      cases h
      rfl
  | freeItem loop index =>
      cases h
      rfl
  | _ => cases h

end Line

end ShellToC
