import ShellToC.Proofs.Nesting
import ShellToC.Proofs.Quiet

/-
  This file defines guards: the conditions on which a line
  of a program is reached, as the text of the program tells.

  The conditions of a program are numbered in the order in
  which they stand.  A reader goes over the texts of the
  lines one by one and keeps a guard for every open brace.

  Key definitions include:
    * `Guard`
    * `Guard.Reader`
    * `Guard.Reader.labels`
    * `GuardedLine`
    * `Guard.Reader.Reads`

  Main declarations:
    * `Guard.Reader.Reads.append`
    * `Guard.Reader.reads_codeLines`
-/

namespace ShellToC

open Lexeme

------------------------------------------------------------
-- Guards
------------------------------------------------------------

/-
  Why the code in braces is reached: a condition succeeded,
  it failed, or something else than a condition decides.
-/
inductive Guard where
  | success (condition : Nat)
  | failure (condition : Nat)
  | other
  deriving DecidableEq, Repr

/- The lexemes of a line.  A line that opens a comment has none. -/
def Lexeme.ofLine
    (text : Text) : List Lexeme :=
  if text.opensComment then [] else ofText text

namespace Guard

/- The guard of the `else` branch. -/
def negate : Guard → Guard
  | .success condition => .failure condition
  | guard => guard

/- Whether a condition decides. -/
def isCondition : Guard → Bool
  | .other => false
  | _ => true

/- The guards behind a lexeme, of which a brace opens or closes one. -/
def past
    (stack : List Guard) : Lexeme → List Guard
  | .sign c =>
      if c = '\x7b' then
        .other :: stack
      else if c = '\x7d' then
        stack.tail
      else
        stack
  | _ => stack

/- The number of conditions so far, and a guard for every open brace. -/
structure Reader where
  conditions : Nat
  stack : List Guard
  deriving DecidableEq, Repr

namespace Reader

/-
  Go over the lexemes of a line.  A test of the status for
  success opens the branch of a condition, and an `else`
  leads from there to the other branch.
-/
def step
    (reader : Reader)
    (line : List Lexeme) : Reader :=
  if line = ofText "if (last_status == 0) \x7b" then
    ⟨reader.conditions + 1,
      .success reader.conditions :: reader.stack⟩
  else if line = ofText "\x7d else \x7b" then
    ⟨reader.conditions, reader.stack.modifyHead negate⟩
  else
    ⟨reader.conditions, line.foldl past reader.stack⟩

/-
  The conditions on which a line is reached.  A closing
  brace at the start of the line is closed before it.
-/
def guards
    (reader : Reader)
    (line : List Lexeme) : List Guard :=
  if line.head? = some (.sign '\x7d') then
    reader.stack.tail.filter isCondition
  else
    reader.stack.filter isCondition

/- The conditions on which each of the lines is reached. -/
def labels
    (reader : Reader) : List Text → List (List Guard)
  | [] => []
  | text :: texts =>
      reader.guards (ofLine text) ::
        (reader.step (ofLine text)).labels texts

/- Go over lines. -/
def run
    (reader : Reader)
    (texts : List Text) : Reader :=
  texts.foldl (fun reader text => reader.step (ofLine text))
    reader

end Reader

end Guard

------------------------------------------------------------
-- Guarded Code
------------------------------------------------------------

/- A line of a program: how far it is indented, and its text. -/
structure CodeLine where
  indent : Nat
  text : Text
  deriving DecidableEq, Repr

/- What is written for a line, with the given unit of indentation. -/
def CodeLine.render
    (unit : Text)
    (line : CodeLine) : Text :=
  Text.repeated line.indent unit ++ line.text ++ ['\n']

/- A row as it is written. -/
def Row.codeLine
    (row : Row) : CodeLine :=
  ⟨row.indent, row.line.render⟩

/- The lines that events write inside of so many blocks. -/
def Event.codeLines
    (file : Text)
    (depth : Nat)
    (events : List Event) : List CodeLine :=
  (events.flatMap (rows file depth)).map Row.codeLine

theorem Event.codeLines_append
    (file : Text)
    (depth : Nat)
    (a b : List Event) :
    codeLines file depth (a ++ b) =
      codeLines file depth a ++ codeLines file depth b := by
  simp [codeLines]

/- The body of a draft is made up of its rows as they are written. -/
theorem Draft.body_eq
    (draft : Draft) :
    draft.body =
      (draft.rows.toList.map Row.codeLine).flatMap
        (CodeLine.render draft.unit) := by
  rw [body, List.flatMap_map]
  rfl

/- A line with the conditions on which it is reached. -/
structure GuardedLine extends CodeLine where
  guards : List Guard
  deriving DecidableEq, Repr

namespace Guard.Reader

/- The reader finds the guards of the code, and goes on as another one. -/
structure Reads
    (before : Reader)
    (code : List GuardedLine)
    (behind : Reader) : Prop where
  labels_eq : before.labels (code.map (·.text)) =
    code.map GuardedLine.guards
  run_eq : before.run (code.map (·.text)) = behind

theorem labels_append
    (reader : Reader)
    (a b : List Text) :
    reader.labels (a ++ b) =
      reader.labels a ++ (reader.run a).labels b := by
  induction a generalizing reader with
  | nil => rfl
  | cons text a ih =>
      simp only [List.cons_append, labels, ih]
      rfl

theorem Reads.nil
    (reader : Reader) :
    Reads reader [] reader :=
  ⟨rfl, rfl⟩

theorem Reads.append
    {before between behind : Reader}
    {a b : List GuardedLine}
    (ha : Reads before a between)
    (hb : Reads between b behind) :
    Reads before (a ++ b) behind := by
  constructor
  · rw [List.map_append, labels_append, ha.labels_eq,
      ha.run_eq, hb.labels_eq, List.map_append]
  · have hRun := ha.run_eq
    have hRest := hb.run_eq
    simp only [run] at hRun hRest
    rw [List.map_append, run, List.foldl_append, hRun, hRest]

/- One line is read by one step. -/
theorem reads_single
    (reader : Reader)
    (indent : Nat)
    {text : Text}
    {ls : List Lexeme}
    (h : ofLine text = ls) :
    Reads reader [⟨⟨indent, text⟩, reader.guards ls⟩]
      (reader.step ls) := by
  rw [← h]
  exact ⟨rfl, rfl⟩

------------------------------------------------------------
-- Branches
------------------------------------------------------------

/- The lines that open, continue and close a branch. -/
theorem ofLine_known :
    (ofLine "if (last_status == 0) \x7b" =
        ofText "if (last_status == 0) \x7b" ∧
      (ofText "if (last_status == 0) \x7b").head? ≠
        some (.sign '\x7d')) ∧
    (ofLine "\x7d else \x7b" = ofText "\x7d else \x7b" ∧
      (ofText "\x7d else \x7b").head? = some (.sign '\x7d') ∧
      ofText "\x7d else \x7b" ≠
        ofText "if (last_status == 0) \x7b") ∧
    ofLine "\x7d" = [.sign '\x7d'] ∧
      [.sign '\x7d'] ≠ ofText "if (last_status == 0) \x7b" ∧
      [.sign '\x7d'] ≠ ofText "\x7d else \x7b" := by
  repeat rw [Text.ofString_ofList]
  decide +kernel

/- A test for success leads into the branch of a condition. -/
theorem reads_open
    (conditions indent : Nat)
    (stack : List Guard) :
    Reads ⟨conditions, stack⟩
      [⟨⟨indent, "if (last_status == 0) \x7b"⟩,
        stack.filter isCondition⟩]
      ⟨conditions + 1, .success conditions :: stack⟩ := by
  rcases ofLine_known.1 with ⟨hLine, hHead⟩
  have h := reads_single ⟨conditions, stack⟩ indent hLine
  rw [guards, if_neg hHead, step, if_pos rfl] at h
  exact h

/- An `else` leads from one branch to the other. -/
theorem reads_else
    (conditions indent : Nat)
    (guard : Guard)
    (stack : List Guard) :
    Reads ⟨conditions, guard :: stack⟩
      [⟨⟨indent, "\x7d else \x7b"⟩, stack.filter isCondition⟩]
      ⟨conditions, guard.negate :: stack⟩ := by
  rcases ofLine_known.2.1 with ⟨hLine, hHead, hElse⟩
  have h := reads_single ⟨conditions, guard :: stack⟩ indent hLine
  rw [guards, if_pos hHead, step, if_neg hElse, if_pos rfl] at h
  exact h

/- A closing brace leads out of a branch. -/
theorem reads_close
    (conditions indent : Nat)
    (guard : Guard)
    (stack : List Guard) :
    Reads ⟨conditions, guard :: stack⟩
      [⟨⟨indent, "\x7d"⟩, stack.filter isCondition⟩]
      ⟨conditions, stack⟩ := by
  rcases ofLine_known.2.2 with ⟨hLine, hOpen, hElse⟩
  have h := reads_single ⟨conditions, guard :: stack⟩ indent hLine
  rw [step, if_neg hOpen, if_neg hElse] at h
  exact h

end Guard.Reader

------------------------------------------------------------
-- Code Without Conditions
------------------------------------------------------------

namespace Line

/-
  The reader makes out the lexemes of a line, also of a mark
  whose file name ends its comment.
-/
def IsClear
    (line : Line) : Prop :=
  line.isMarker = true ∨ line.IsLegible

theorem ofLine_render
    {line : Line}
    (h : line.IsClear) :
    ofLine line.render = line.lexemes := by
  cases hMarker : line.isMarker with
  | true =>
      cases line with
      | marker file line message =>
          rw [ofLine, opensComment_marker]
          rfl
      | _ => cases hMarker
  | false =>
      have hLegible : line.IsLegible := by
        simpa [IsClear, hMarker] using h
      have hCode : line.isCode = true := by
        cases line with
        | marker file line message => cases hMarker
        | verbatim text => exact hLegible.elim
        | _ => rfl
      rw [ofLine, opensComment_of_isCode hCode]
      exact (readsWhole_render hLegible).ofText_eq

/- A mark has no braces, whatever its file is called. -/
theorem IsClear.unclosed_lexemes
    {line : Line}
    (h : line.IsClear) :
    unclosed line.lexemes =
        (line.opens : Int) - line.closes ∧
      StaysAbove line.closes line.lexemes := by
  rcases h with hMarker | hLegible
  · cases line with
    | marker file line message =>
        exact ⟨rfl, staysAbove_nil.mpr (Int.natCast_nonneg _)⟩
    | _ => cases hMarker
  · exact Line.unclosed_lexemes hLegible

end Line

namespace Guard

/-
  Braces that are closed no further than to the guards around
  open and close nothing else than scopes.
-/
theorem foldl_past
    (ls : List Lexeme)
    (n : Nat)
    (h : StaysAbove n ls)
    (outer : List Guard) :
    ls.foldl past (List.replicate n .other ++ outer) =
      List.replicate (n + unclosed ls).toNat .other ++ outer := by
  induction ls generalizing n with
  | nil => simp
  | cons l ls ih =>
      rw [staysAbove_cons] at h
      have hAbove : 0 ≤ n + l.brace := by
        simpa using h.2 [] List.nil_prefix
      have hNat : ((n + l.brace).toNat : Int) = n + l.brace :=
        Int.toNat_of_nonneg hAbove
      have hStep :
          past (List.replicate n .other ++ outer) l =
            List.replicate (n + l.brace).toNat .other ++
              outer := by
        cases l with
        | word w => simp [past, brace]
        | literal quote inside => simp [past, brace]
        | sign c =>
            by_cases hOpen : c = '\x7b'
            · subst hOpen
              rfl
            by_cases hClose : c = '\x7d'
            · subst hClose
              cases n with
              | zero => simp [brace] at hAbove
              | succ n =>
                  have hCount : (((n + 1 : Nat) : Int) +
                      brace (.sign '\x7d')).toNat = n := by
                    change (((n + 1 : Nat) : Int) + -1).toNat = n
                    omega
                  rw [hCount]
                  rfl
            · simp [past, brace, hOpen, hClose]
      rw [List.foldl_cons, hStep, ih _ (by rw [hNat]; exact h.2),
        hNat, unclosed_cons, Int.add_assoc]

namespace Reader

/- A reader inside of so many scopes. -/
def inScopes
    (conditions scopes : Nat)
    (outer : List Guard) : Reader :=
  ⟨conditions, List.replicate scopes .other ++ outer⟩

theorem filter_scopes
    (scopes : Nat)
    (outer : List Guard) :
    (List.replicate scopes Guard.other ++ outer).filter
        isCondition =
      outer.filter isCondition := by
  rw [List.filter_append, List.filter_replicate]
  rfl

/- The braces of the lines that the reader knows. -/
theorem braces_known :
    unclosed (ofText "if (last_status == 0) \x7b") = 1 ∧
      unclosed (ofText "\x7d else \x7b") = 0 ∧
        ¬ StaysAbove 0 (ofText "\x7d else \x7b") := by
  repeat rw [Text.ofString_ofList]
  decide +kernel

/- One line only has the text that opens the branch of a condition. -/
theorem eq_openOnSuccess
    {line : Line}
    (hClear : line.IsClear)
    (h : line.lexemes = ofText "if (last_status == 0) \x7b") :
    line = .openOnSuccess := by
  have hBraces := hClear.unclosed_lexemes.1
  rw [h, braces_known.1] at hBraces
  have hOpens : line.opens = 1 ∧ line.closes = 0 := by
    cases line <;> simp [Line.opens, Line.closes] at hBraces ⊢
  have hFixed : ∀ line ∈ [Line.openScope, .openOnFailure,
      .openForever, .openNever, .openOnWorkingDir],
      line.lexemes ≠ ofText "if (last_status == 0) \x7b" := by
    decide +kernel
  cases line with
  | openOnSuccess => rfl
  | openItems loop count =>
      have hHead : (ofText "for (size_t ").head? =
            some (.word "for") ∧
          (ofText "if (last_status == 0) \x7b").head? =
            some (.word "if") := by
        repeat rw [Text.ofString_ofList]
        decide +kernel
      have hSame := congrArg List.head? h
      rw [Line.lexemes, List.append_assoc, List.head?_append,
        hHead.1, hHead.2] at hSame
      simp [Text.ofString_inj] at hSame
  | openElse => cases hOpens.2
  | openScope => exact absurd h (hFixed _ (by simp))
  | openOnFailure => exact absurd h (hFixed _ (by simp))
  | openForever => exact absurd h (hFixed _ (by simp))
  | openNever => exact absurd h (hFixed _ (by simp))
  | openOnWorkingDir => exact absurd h (hFixed _ (by simp))
  | _ => cases hOpens.1

/- A line that opens no branch moves between scopes only. -/
theorem step_inScopes
    {line : Line}
    (hLine : line ≠ .openOnSuccess)
    (hClear : line.IsClear)
    (conditions scopes : Nat)
    (outer : List Guard) :
    (inScopes conditions (scopes + line.closes) outer).step
        line.lexemes =
      inScopes conditions (scopes + line.opens) outer := by
  rcases hClear.unclosed_lexemes with ⟨hCount, hAbove⟩
  rw [step, if_neg fun h => hLine (eq_openOnSuccess hClear h)]
  split
  next hElse =>
    -- An `else` leads from one scope to another.
    rw [hElse, braces_known.2.1] at hCount
    rw [hElse] at hAbove
    have hCloses : line.closes ≠ 0 := by
      intro hNone
      rw [hNone] at hAbove
      exact braces_known.2.2 hAbove
    have hOpens : line.opens = line.closes := by omega
    rw [hOpens]
    cases hPositive : line.closes with
    | zero => exact absurd hPositive hCloses
    | succ n => rfl
  next =>
    have hWithin : StaysAbove (scopes + line.closes : Nat)
        line.lexemes := by
      intro part hPart
      have hPartAbove := hAbove part hPart
      omega
    have hScopes : ((scopes + line.closes : Nat) +
        unclosed line.lexemes).toNat = scopes + line.opens := by
      omega
    have hPast := foldl_past line.lexemes _ hWithin outer
    rw [hScopes] at hPast
    exact congrArg (Reader.mk conditions) hPast

theorem guards_inScopes
    {line : Line}
    (hClear : line.IsClear)
    (conditions scopes : Nat)
    (outer : List Guard) :
    (inScopes conditions (scopes + line.closes) outer).guards
        line.lexemes =
      outer.filter isCondition := by
  unfold guards
  split
  next hHead =>
    -- Only a line that closes a scope starts with a brace.
    rcases List.head?_eq_some_iff.mp hHead with ⟨rest, hRest⟩
    have hAbove := hClear.unclosed_lexemes.2
    rw [hRest, staysAbove_cons] at hAbove
    have hCloses : 0 ≤ (line.closes : Int) + -1 := by
      simpa [brace] using hAbove.2 [] List.nil_prefix
    cases hPositive : line.closes with
    | zero => omega
    | succ n => exact filter_scopes (scopes + n) outer
  next => exact filter_scopes (scopes + line.closes) outer

/- One plain event is read without a change of conditions. -/
theorem reads_event
    {before behind : Nesting}
    {event : Event}
    (h : Event.Nests before event behind)
    (hPlain : event.isPlain = true)
    (file : Text)
    (depth conditions : Nat)
    (outer : List Guard) :
    Reads (inScopes conditions before.scopes outer)
      ((Event.codeLines file depth [event]).map
        (⟨·, outer.filter isCondition⟩))
      (inScopes conditions behind.scopes outer) := by
  cases h with
  | write depth' extra line hLegible =>
      have hLine : line ≠ .openOnSuccess := by
        simpa [Event.isPlain] using hPlain
      have hClear : line.IsClear := Or.inr hLegible
      have hStep := step_inScopes hLine hClear conditions extra
        outer
      have hGuards := guards_inScopes hClear conditions extra
        outer
      rw [← hStep, ← hGuards]
      exact reads_single _ _ (Line.ofLine_render hClear)
  | fail nesting line fault =>
      let marker := Line.marker file line fault.message
      have hClear : marker.IsClear := Or.inl rfl
      have hGuards := guards_inScopes hClear conditions
        before.scopes outer
      have hStep := step_inScopes Line.noConfusion hClear
        conditions before.scopes outer
      have hRead := reads_single
        (inScopes conditions before.scopes outer) (depth + 1)
        (Line.ofLine_render hClear)
      exact ⟨hRead.labels_eq.trans (congrArg ([·]) hGuards),
        hRead.run_eq.trans hStep⟩
  | _ => cases hPlain

/- Plain events are read without a change of conditions. -/
theorem reads_codeLines
    {before behind : Nesting}
    {events : List Event}
    (h : Event.NestsAll before events behind)
    (hPlain : events.all Event.isPlain = true)
    (file : Text)
    (depth conditions : Nat)
    (outer : List Guard) :
    Reads (inScopes conditions before.scopes outer)
      ((Event.codeLines file depth events).map
        (⟨·, outer.filter isCondition⟩))
      (inScopes conditions behind.scopes outer) := by
  induction h with
  | nil => exact Reads.nil _
  | cons hFirst _ ih =>
      rw [List.all_cons, Bool.and_eq_true] at hPlain
      rw [← List.singleton_append, Event.codeLines_append,
        List.map_append]
      exact (reads_event hFirst hPlain.1 file depth conditions
        outer).append (ih hPlain.2)

end Reader

end Guard

end ShellToC
