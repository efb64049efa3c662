import ShellToC.Proofs.Braces

/-
  This file reads the functions of C text: those that it
  only declares, and those that it defines, each with the
  lexemes of its body.

  Outside of all braces, a function is declared by its head
  and a semicolon, and defined by its head and a body in
  braces.  Its name is the first word of the head that a
  parenthesis follows.

  Key definitions include:
    * `CFunction`
    * `Outline.step`
    * `Outline.Leads`
    * `CFunction.ofLexemes`
    * `CFunction.MakeUp`

  Main declarations:
    * `Outline.leads_inside`
    * `CFunction.makeUp_definition`
-/

namespace ShellToC

open Lexeme

------------------------------------------------------------
-- Functions
------------------------------------------------------------

/- A function of C text, and its body unless it is only declared. -/
structure CFunction where
  name : Text
  body : Option (List Lexeme)
  deriving DecidableEq, Repr

/- What the lexemes read so far leave open. -/
inductive Outline where
  /- Outside of all braces, behind a part of a head. -/
  | outside (head : List Lexeme)
  /- In the braces of a body, and in so many others inside of it. -/
  | inside (head : List Lexeme) (depth : Int)
      (body : List Lexeme)
  deriving DecidableEq, Repr

namespace Outline

/- The function of a head, if a parenthesis makes it one. -/
def functionOf
    (head : List Lexeme)
    (body : Option (List Lexeme)) : List CFunction :=
  (calls head).head?.toList.map (⟨·, body⟩)

/- Read a lexeme. -/
def step : Outline → Lexeme → Outline × List CFunction
  | .outside head, l =>
      if l = .sign ';' then
        (.outside [], functionOf head none)
      else if l = .sign '\x7b' then
        (.inside head 0 [], [])
      else
        (.outside (head ++ [l]), [])
  | .inside head depth body, l =>
      if depth + l.brace < 0 then
        (.outside [], functionOf head (some body))
      else
        (.inside head (depth + l.brace) (body ++ [l]), [])

/- The functions that are complete at the end of lexemes. -/
def functions : Outline → List Lexeme → List CFunction
  | _, [] => []
  | s, l :: ls => (s.step l).2 ++ functions (s.step l).1 ls

/- The state in which lexemes leave the reader. -/
def after
    (s : Outline)
    (ls : List Lexeme) : Outline :=
  ls.foldl (fun s l => (s.step l).1) s

------------------------------------------------------------
-- Parts of Programs
------------------------------------------------------------

/- The lexemes lead from one state to another, past these functions. -/
structure Leads
    (before : Outline)
    (ls : List Lexeme)
    (passed : List CFunction)
    (behind : Outline) : Prop where
  functions_eq : before.functions ls = passed
  after_eq : before.after ls = behind

theorem leads_nil
    (s : Outline) :
    s.Leads [] [] s :=
  ⟨rfl, rfl⟩

theorem leads_single
    {before behind : Outline}
    {l : Lexeme}
    {passed : List CFunction}
    (h : before.step l = (behind, passed)) :
    before.Leads [l] passed behind := by
  constructor
  · simp [functions, h]
  · simp [after, h]

theorem Leads.append
    {before between behind : Outline}
    {a b : List Lexeme}
    {first rest : List CFunction}
    (ha : before.Leads a first between)
    (hb : between.Leads b rest behind) :
    before.Leads (a ++ b) (first ++ rest) behind := by
  have hSplit (s : Outline) :
      s.functions (a ++ b) =
        s.functions a ++ (s.after a).functions b := by
    clear ha
    induction a generalizing s with
    | nil => rfl
    | cons l a ih =>
        simp only [List.cons_append, functions, after,
          List.foldl_cons, List.append_assoc]
        rw [ih]
        rfl
  constructor
  · rw [hSplit, ha.functions_eq, ha.after_eq,
      hb.functions_eq]
  · have hFold : before.after (a ++ b) =
        (before.after a).after b := List.foldl_append
    rw [hFold, ha.after_eq, hb.after_eq]

/-
  Lexemes that close no more braces than are open are part
  of the body.
-/
theorem leads_inside
    (head : List Lexeme)
    {depth : Int}
    (body : List Lexeme)
    {ls : List Lexeme}
    (h : StaysAbove depth ls) :
    (inside head depth body).Leads ls []
      (.inside head (depth + unclosed ls) (body ++ ls)) := by
  induction ls generalizing depth body with
  | nil => simpa using leads_nil (inside head depth body)
  | cons l ls ih =>
      rw [staysAbove_cons] at h
      have hAbove : ¬ depth + l.brace < 0 := by
        have hRest := h.2 [] List.nil_prefix
        simp only [unclosed_nil] at hRest
        omega
      have hFirst : (inside head depth body).Leads [l] []
          (.inside head (depth + l.brace) (body ++ [l])) :=
        leads_single (by simp [step, hAbove])
      simpa [Int.add_assoc] using
        hFirst.append (ih (body ++ [l]) h.2)

end Outline

namespace CFunction

/- The functions that lexemes declare and define. -/
def ofLexemes
    (ls : List Lexeme) : List CFunction :=
  (Outline.outside []).functions ls

/- The lexemes make up these functions, with nothing left open. -/
def MakeUp
    (ls : List Lexeme)
    (functions : List CFunction) : Prop :=
  (Outline.outside []).Leads ls functions (.outside [])

theorem MakeUp.append
    {a b : List Lexeme}
    {first rest : List CFunction}
    (ha : MakeUp a first)
    (hb : MakeUp b rest) :
    MakeUp (a ++ b) (first ++ rest) :=
  Outline.Leads.append ha hb

/- Parts with one function each are read one by one. -/
theorem makeUp_flatMap
    {α : Type}
    (xs : List α)
    {lexemes : α → List Lexeme}
    {function : α → CFunction}
    (h : ∀ x, MakeUp (lexemes x) [function x]) :
    MakeUp (xs.flatMap lexemes) (xs.map function) := by
  induction xs with
  | nil => exact Outline.leads_nil _
  | cons x xs ih =>
      rw [List.flatMap_cons]
      exact (h x).append ih

/- A head and balanced lexemes in braces define a function. -/
theorem makeUp_definition
    {head body : List Lexeme}
    {name : Text}
    (hHead : (Outline.outside []).Leads head []
      (.outside head))
    (hName : (calls head).head? = some name)
    (hBody : unclosed body = 0 ∧ StaysAbove 0 body) :
    MakeUp (head ++ [.sign '\x7b'] ++ body ++ [.sign '\x7d'])
      [⟨name, some body⟩] := by
  have hOpen : (Outline.outside head).Leads [.sign '\x7b'] []
      (.inside head 0 []) :=
    Outline.leads_single (by simp [Outline.step])
  have hInside := Outline.leads_inside head [] hBody.2
  have hClose : (Outline.inside head 0 body).Leads
      [.sign '\x7d'] [⟨name, some body⟩] (.outside []) :=
    Outline.leads_single (by
      simp [Outline.step, brace, Outline.functionOf, hName])
  rw [hBody.1] at hInside
  exact ((hHead.append hOpen).append hInside).append hClose

end CFunction

end ShellToC
