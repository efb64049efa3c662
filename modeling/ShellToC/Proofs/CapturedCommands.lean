import ShellToC.Proofs.ListOperators
import ShellToC.Proofs.Patterns

/-
  This file says when the command that an assignment captures
  is the whole command of one substitution.

  The rule takes all that stands between the first `$(` and the
  last parenthesis of the value.  This is the command of one
  substitution exactly if its parentheses match, those that are
  escaped or in single quotes apart, and if it ends neither in
  an escape nor in single quotes.

  Key definitions include:
    * `Substitution.parens?`
    * `Substitution.Matched`
    * `Substitution.depthAt`
    * `Substitution.ClosesAt`

  Main declarations:
    * `Substitution.climb?_eq_some_zero_iff`
    * `Substitution.closesBehind_iff_climb?`
    * `Command.capture_closesAt_iff`
    * `Command.capture_of_two`
-/

namespace ShellToC

namespace Substitution

------------------------------------------------------------
-- Matching Parentheses
------------------------------------------------------------

/- Every parenthesis has its partner. -/
inductive Matched : Text → Prop where
  | nil : Matched []
  | nest {a b : Text}
      (ha : Matched a)
      (hb : Matched b) : Matched ('(' :: (a ++ ')' :: b))

/- The depth behind parentheses, unless more are closed than open. -/
def climb? : Nat → Text → Option Nat
  | depth, [] => some depth
  | depth, c :: rest =>
      if c = '(' then
        climb? (depth + 1) rest
      else if c = ')' ∧ 0 < depth then
        climb? (depth - 1) rest
      else
        none

/- Matched parentheses lead back to where they start. -/
theorem Matched.climb?_append
    {parens : Text}
    (h : Matched parens)
    (depth : Nat)
    (rest : Text) :
    climb? depth (parens ++ rest) = climb? depth rest := by
  induction h generalizing depth rest with
  | nil => rfl
  | nest ha hb iha ihb =>
      rw [List.cons_append, climb?, if_pos rfl, List.append_assoc,
        iha, List.cons_append, climb?]
      simp [ihb]

/- What closes a parenthesis follows what is matched. -/
theorem exists_matched_of_climb?
    {parens : Text}
    {depth : Nat}
    (h : climb? (depth + 1) parens = some 0) :
    ∃ a b, Matched a ∧ parens = a ++ ')' :: b ∧
      climb? depth b = some 0 := by
  induction hLength : parens.length using Nat.strongRecOn
    generalizing parens depth with
  | ind length ih =>
      cases parens with
      | nil => simp [climb?] at h
      | cons c rest =>
          rw [climb?] at h
          split at h
          next hc =>
            -- What opens is closed first, and then the outer one is.
            subst hc hLength
            rcases ih rest.length (by simp) h rfl with
              ⟨a, b, ha, rfl, hb⟩
            rcases ih b.length (by simp; omega) hb rfl with
              ⟨a', b', ha', rfl, hb'⟩
            exact ⟨'(' :: (a ++ ')' :: a'), b', .nest ha ha',
              by simp, hb'⟩
          next =>
            split at h
            next hc => exact ⟨[], rest, .nil, by simp [hc.1], h⟩
            next => contradiction

/- Parentheses match if they lead from the ground back to it. -/
theorem climb?_eq_some_zero_iff
    (parens : Text) :
    climb? 0 parens = some 0 ↔ Matched parens := by
  constructor
  · intro h
    induction hLength : parens.length using Nat.strongRecOn
      generalizing parens with
    | ind length ih =>
        cases parens with
        | nil => exact .nil
        | cons c rest =>
            rw [climb?] at h
            split at h
            next hc =>
              subst hc hLength
              rcases exists_matched_of_climb? h with
                ⟨a, b, ha, rfl, hb⟩
              exact .nest ha (ih b.length (by simp; omega) b hb rfl)
            next => simp at h
  · intro h
    have hClimb := h.climb?_append 0 []
    rwa [List.append_nil] at hClimb

------------------------------------------------------------
-- Parentheses of a Command
------------------------------------------------------------

/-
  The parentheses that count in a command, given the quotes
  that are open before it: all but those that are escaped or in
  single quotes.  A command that ends in an escape or in single
  quotes has none.
-/
def parens? : (single double tick : Bool) → Text → Option Text
  | false, _, _, [] => some []
  | true, _, _, [] => none
  | true, double, tick, c :: rest =>
      parens? (c != '\x27') double tick rest
  | false, double, tick, '$' :: '(' :: rest =>
      (parens? false double tick rest).map ('(' :: ·)
  | false, double, tick, c :: rest =>
      if c = '\x5c' then
        match rest with
        | [] => none
        | _ :: rest => parens? false double tick rest
      else if c = '\x27' ∧ !double ∧ !tick then
        parens? true double tick rest
      else if c = '\x22' ∧ !tick then
        parens? false (!double) tick rest
      else if c = '\x60' then
        parens? false double (!tick) rest
      else if c = '(' ∨ c = ')' then
        (parens? false double tick rest).map (c :: ·)
      else
        parens? false double tick rest

end Substitution

------------------------------------------------------------
-- Nesting
------------------------------------------------------------

namespace Quoting

/- What an unquoted character does inside of a substitution. -/
theorem step_within
    {q : Quoting}
    (hDepth : 0 < q.depth)
    (hPending : q.pending = .nothing)
    (hSingle : q.single = false)
    (c : Char)
    (next : Option Char) :
    (q.step c next).2 =
      let inside := { q with wordStart := false }
      if c = '\x5c' then
        { inside with pending := .quotedNext }
      else if c = '\x27' ∧ !q.double ∧ !q.tick then
        { inside with single := true }
      else if c = '\x22' ∧ !q.tick then
        { inside with double := !q.double }
      else if c = '\x60' then
        { inside with tick := !q.tick }
      else if c = '$' ∧ next = some '(' then
        { inside with
          depth := q.depth + 1, pending := .quotedNext }
      else if c = '(' then
        { inside with depth := q.depth + 1 }
      else if c = ')' then
        { inside with depth := q.depth - 1 }
      else
        inside := by
  have hOpen : q.isNeutral = false := by
    simp [isNeutral, Nat.ne_of_gt hDepth]
  simp only [step, stepOpen, hPending, hSingle, hDepth, hOpen]
  grind

/-
  Whether the parenthesis behind a text, with `next` behind it,
  is the first that closes all that is open before the text.
-/
def closesBehind
    (next : Option Char)
    (q : Quoting) : Text → Bool
  | [] => 0 < q.depth && (q.step ')' next).2.depth == 0
  | c :: rest =>
      0 < q.depth && closesBehind next
        (q.step c (rest.head?.or (some ')'))).2 rest

/- Nothing is left to be closed where nothing is open. -/
theorem closesBehind_of_depth
    {q : Quoting}
    (h : q.depth = 0)
    (next : Option Char)
    (text : Text) :
    closesBehind next q text = false := by
  cases text <;> simp [closesBehind, h]

theorem closesBehind_cons
    {q : Quoting}
    (h : 0 < q.depth)
    (next : Option Char)
    (c : Char)
    (rest : Text) :
    closesBehind next q (c :: rest) =
      closesBehind next
        (q.step c (rest.head?.or (some ')'))).2 rest := by
  simp [closesBehind, h]

/- A character that is decided takes no part in the nesting. -/
theorem step_decided
    {q : Quoting}
    (h : q.pending = .quotedNext)
    (c : Char)
    (next : Option Char) :
    (q.step c next).2 =
      { q with wordStart := false, pending := .nothing } := by
  rw [step, if_pos h]

/- Nor does a character in single quotes. -/
theorem step_single
    {q : Quoting}
    (hPending : q.pending = .nothing)
    (hSingle : q.single = true)
    (c : Char)
    (next : Option Char) :
    (q.step c next).2 =
      { q with single := c != '\x27', wordStart := false } := by
  simp [step, hPending, hSingle]

end Quoting

namespace Substitution

open Quoting

/- An opening parenthesis leads one step up. -/
theorem bind_climb?_open
    {depth : Nat}
    (h : 0 < depth)
    (found : Option Text) :
    (found.map ('(' :: ·)).bind (climb? (depth - 1)) =
      found.bind (climb? (depth + 1 - 1)) := by
  have hDepth : depth - 1 + 1 = depth + 1 - 1 := by omega
  cases found with
  | none => rfl
  | some parens =>
      rw [Option.map_some, Option.bind_some, climb?, if_pos rfl,
        hDepth]
      rfl

/- A closing one leads one step down, but not below the ground. -/
theorem bind_climb?_close
    (depth : Nat)
    (found : Option Text) :
    (found.map (')' :: ·)).bind (climb? depth) =
      if 0 < depth then found.bind (climb? (depth - 1))
      else none := by
  cases found <;> simp [climb?]

/- A dollar sign opens nothing unless a parenthesis follows it. -/
theorem not_opens
    {c : Char}
    {rest : Text}
    (h : ∀ others, c = '$' → rest = '(' :: others → False) :
    ¬(c = '$' ∧ rest.head?.or (some ')') = some '(') := by
  rintro ⟨hc, hHead⟩
  cases rest with
  | nil => simp at hHead
  | cons d others =>
      have hd : d = '(' := by simpa using hHead
      exact h others hc (by rw [hd])

/-
  The parenthesis behind a command closes the substitution, and
  no earlier one does, exactly if the parentheses of the command
  lead back to the depth before it.
-/
theorem closesBehind_iff_climb?
    {single double tick : Bool}
    {text : Text}
    {q : Quoting}
    (hDepth : 0 < q.depth)
    (hPending : q.pending = .nothing)
    (hSingle : q.single = single)
    (hDouble : q.double = double)
    (hTick : q.tick = tick)
    (next : Option Char) :
    q.closesBehind next text = true ↔
      (parens? single double tick text).bind
        (climb? (q.depth - 1)) = some 0 := by
  fun_induction parens? single double tick text
    generalizing q with
  | case1 double tick =>
      simp [closesBehind, step_within hDepth hPending hSingle,
        hDepth, climb?]
  | case2 double tick =>
      simp [closesBehind, step_single hPending hSingle, hDepth]
      omega
  | case3 double tick c rest ih =>
      rw [closesBehind_cons hDepth, step_single hPending hSingle]
      exact ih hDepth hPending rfl hDouble hTick
  | case4 double tick rest ih =>
      rw [closesBehind_cons hDepth,
        step_within hDepth hPending hSingle,
        bind_climb?_open hDepth]
      exact ih (Nat.succ_pos _) rfl hSingle hDouble hTick
  | case5 double tick =>
      rw [closesBehind_cons hDepth,
        step_within hDepth hPending hSingle]
      simp [closesBehind, step_decided]
      omega
  | case6 double tick c rest _ ih =>
      have hDecided := @step_decided { q with
        wordStart := false, pending := .quotedNext } rfl
      rw [closesBehind_cons hDepth,
        step_within hDepth hPending hSingle, if_pos rfl,
        closesBehind_cons (by exact hDepth), hDecided]
      exact ih hDepth rfl hSingle hDouble hTick
  | case7 double tick c rest hHeld hc hQuote ih =>
      subst hDouble hTick
      rw [closesBehind_cons hDepth,
        step_within hDepth hPending hSingle, if_neg hc,
        if_pos hQuote]
      exact ih hDepth hPending rfl rfl rfl
  | case8 double tick c rest hHeld hc hSingleQuote hQuote ih =>
      subst hDouble hTick
      rw [closesBehind_cons hDepth,
        step_within hDepth hPending hSingle, if_neg hc,
        if_neg hSingleQuote, if_pos hQuote]
      exact ih hDepth hPending hSingle rfl rfl
  | case9 double tick rest _ hc hSingleQuote hDoubleQuote ih =>
      subst hDouble hTick
      rw [closesBehind_cons hDepth,
        step_within hDepth hPending hSingle, if_neg hc,
        if_neg hSingleQuote, if_neg hDoubleQuote, if_pos rfl]
      exact ih hDepth hPending hSingle rfl rfl
  | case10 double tick c rest hHeld hc hSingleQuote hDoubleQuote
      hTickQuote hParen ih =>
      subst hDouble hTick
      rw [closesBehind_cons hDepth,
        step_within hDepth hPending hSingle, if_neg hc,
        if_neg hSingleQuote, if_neg hDoubleQuote,
        if_neg hTickQuote, if_neg (not_opens hHeld)]
      rcases hParen with rfl | rfl
      · rw [if_pos rfl, bind_climb?_open hDepth]
        exact ih (Nat.succ_pos _) hPending hSingle rfl rfl
      · rw [if_neg (by decide), if_pos rfl, bind_climb?_close]
        by_cases hInner : 0 < q.depth - 1
        · rw [if_pos hInner]
          exact ih hInner hPending hSingle rfl rfl
        · rw [if_neg hInner, closesBehind_of_depth]
          · simp
          · simp
            omega
  | case11 double tick c rest hHeld hc hSingleQuote hDoubleQuote
      hTickQuote hParen ih =>
      subst hDouble hTick
      rw [not_or] at hParen
      rw [closesBehind_cons hDepth,
        step_within hDepth hPending hSingle, if_neg hc,
        if_neg hSingleQuote, if_neg hDoubleQuote,
        if_neg hTickQuote, if_neg (not_opens hHeld),
        if_neg hParen.1, if_neg hParen.2]
      exact ih hDepth hPending hSingle rfl rfl

------------------------------------------------------------
-- Places
------------------------------------------------------------

/-
  How deep substitutions and parentheses are nested behind the
  first `n` characters of a text.
-/
def depthAt
    (text : Text)
    (n : Nat) : Nat :=
  (Quoting.start.behind text[n]? (text.take n)).depth

/-
  What is open behind the first `opened` characters of a text is
  closed by the character at the place `closing`, and by none
  before it.
-/
structure ClosesAt
    (text : Text)
    (opened closing : Nat) : Prop where
  stays : ∀ n, opened ≤ n → n ≤ closing → 0 < depthAt text n
  ends : depthAt text (closing + 1) = 0

/- What is read first, in the front of a text or behind it. -/
theorem head?_take_or
    (text : Text)
    (k : Nat) :
    (text.take k).head?.or text[k]? = text.head? := by
  cases k with
  | zero => simp [List.head?_eq_getElem?]
  | succ k => cases text <;> simp

/- The parenthesis behind a command, by the depth at every place. -/
theorem closesBehind_iff
    (q : Quoting)
    (text last : Text) :
    q.closesBehind last.head? text = true ↔
      (∀ k ≤ text.length, 0 <
        (q.behind (text ++ ')' :: last)[k]?
          ((text ++ ')' :: last).take k)).depth) ∧
      (q.behind last.head? (text ++ [')'])).depth = 0 := by
  induction text generalizing q with
  | nil => simp [closesBehind, Quoting.behind]
  | cons c rest ih =>
      have hNext : (rest ++ ')' :: last).head? =
          rest.head?.or (some ')') := by
        cases rest <;> rfl
      have hNextEnd : (rest ++ [')']).head?.or last.head? =
          rest.head?.or (some ')') := by
        cases rest <;> rfl
      -- The first character leads from one place to the next.
      have hPlace (k : Nat) :
          q.behind (c :: rest ++ ')' :: last)[k + 1]?
              ((c :: rest ++ ')' :: last).take (k + 1)) =
            (q.step c (rest.head?.or (some ')'))).2.behind
              (rest ++ ')' :: last)[k]?
              ((rest ++ ')' :: last).take k) := by
        rw [List.cons_append, List.take_succ_cons,
          List.getElem?_cons_succ, Quoting.behind,
          head?_take_or, hNext]
      rw [closesBehind, Bool.and_eq_true, decide_eq_true_eq, ih,
        ← and_assoc, @List.cons_append _ c rest [')'],
        Quoting.behind, hNextEnd]
      refine and_congr_left fun _ => ?_
      constructor
      · rintro ⟨hDepth, h⟩ k hk
        cases k with
        | zero => exact hDepth
        | succ k =>
            rw [hPlace]
            exact h k (Nat.le_of_succ_le_succ hk)
      · intro h
        refine ⟨h 0 (Nat.zero_le _), fun k hk => ?_⟩
        rw [← hPlace]
        exact h (k + 1) (Nat.succ_le_succ hk)

/- The state in which a captured command starts. -/
def opening
    (quoted : Bool) : Quoting :=
  { double := quoted, depth := 1, wordStart := false }

theorem behind_opening
    {first : Text}
    (hFirst : first ∈ Pattern.optionalQuote)
    (next : Option Char) :
    Quoting.start.behind next (first ++ ['$', '(']) =
      opening (!first.isEmpty) := by
  simp only [Pattern.optionalQuote, List.mem_cons,
    List.not_mem_nil, or_false] at hFirst
  rcases hFirst with rfl | rfl <;> rfl

/- The depth in a value, by what is read of the command. -/
theorem depthAt_opening
    {first : Text}
    (hFirst : first ∈ Pattern.optionalQuote)
    (rest : Text)
    (k : Nat) :
    depthAt (first ++ ['$', '('] ++ rest)
        (first.length + 2 + k) =
      ((opening (!first.isEmpty)).behind rest[k]?
        (rest.take k)).depth := by
  have hLength : first.length + 2 + k =
      (first ++ ['$', '(']).length + k := by simp
  rw [depthAt, hLength, List.take_length_add_append,
    Quoting.behind_append, behind_opening hFirst,
    List.getElem?_append_right (Nat.le_add_right _ _),
    Nat.add_sub_cancel_left]

theorem closesAt_iff_closesBehind
    {first : Text}
    (hFirst : first ∈ Pattern.optionalQuote)
    (command last : Text) :
    ClosesAt (first ++ ['$', '('] ++ (command ++ ')' :: last))
        (first.length + 2)
        (first.length + 2 + command.length) ↔
      (opening (!first.isEmpty)).closesBehind last.head?
        command = true := by
  have hDepth := depthAt_opening hFirst (command ++ ')' :: last)
  have hEnds := hDepth (command.length + 1)
  have hLast : (command ++ ')' :: last)[command.length + 1]? =
      last.head? := by
    rw [List.getElem?_append_right (Nat.le_add_right _ _)]
    simp [List.head?_eq_getElem?]
  rw [hLast, List.take_length_add_append] at hEnds
  rw [closesBehind_iff]
  constructor
  · intro h
    refine ⟨fun k hk => ?_, hEnds.symm.trans h.ends⟩
    rw [← hDepth]
    exact h.stays _ (Nat.le_add_right _ _)
      (Nat.add_le_add_left hk _)
  · rintro ⟨hStays, hEnd⟩
    refine ⟨fun n hOpened hClosing => ?_, hEnds.trans hEnd⟩
    rcases Nat.exists_eq_add_of_le hOpened with ⟨k, rfl⟩
    rw [hDepth]
    exact hStays k (Nat.le_of_add_le_add_left hClosing)

/-
  The command of a value is the whole command of its first
  substitution exactly if its parentheses match.
-/
theorem closesAt_iff_matched
    {first : Text}
    (hFirst : first ∈ Pattern.optionalQuote)
    (command last : Text) :
    ClosesAt (first ++ ['$', '('] ++ (command ++ ')' :: last))
        (first.length + 2)
        (first.length + 2 + command.length) ↔
      ∃ parens, parens? false (!first.isEmpty) false command =
        some parens ∧ Matched parens := by
  have hDepth : 0 < (opening (!first.isEmpty)).depth :=
    Nat.one_pos
  rw [closesAt_iff_closesBehind hFirst,
    closesBehind_iff_climb? hDepth rfl rfl rfl rfl,
    Option.bind_eq_some_iff]
  exact exists_congr fun parens =>
    and_congr_right fun _ => climb?_eq_some_zero_iff parens

end Substitution

------------------------------------------------------------
-- Captures
------------------------------------------------------------

namespace Pattern

/- What follows an optional quote tells whether there is one. -/
theorem optionalQuote_inj
    {first other a b : Text}
    (hFirst : first ∈ optionalQuote)
    (hOther : other ∈ optionalQuote)
    (ha : a.head? ≠ some '\x22')
    (hb : b.head? ≠ some '\x22')
    (h : first ++ a = other ++ b) :
    first = other ∧ a = b := by
  simp only [optionalQuote, List.mem_cons, List.not_mem_nil,
    or_false] at hFirst hOther
  rcases hFirst with rfl | rfl <;> rcases hOther with rfl | rfl
  · exact ⟨rfl, h⟩
  · simp only [List.nil_append] at h
    simp [h] at ha
  · simp only [List.nil_append] at h
    simp [← h] at hb
  · exact ⟨rfl, List.append_cancel_left h⟩

end Pattern

namespace Command

open Substitution

/-
  A statement that captures the command between `$(` and the
  last parenthesis of its value captures the whole command of
  the first substitution exactly if the parentheses of the
  command match.
-/
theorem capture_closesAt_iff
    {text name command first rest : Text}
    (h : (ofText text).form = .captureAssign name command)
    (hFirst : first ∈ Pattern.optionalQuote)
    (hText : (ofText text).text =
      name ++ '=' :: (first ++ ['$', '('] ++ rest)) :
    ∃ last ∈ Pattern.optionalQuote,
      rest = command ++ ')' :: last ∧
      (ClosesAt (first ++ ['$', '('] ++ rest) (first.length + 2)
          (first.length + 2 + command.length) ↔
        ∃ parens, parens? false (!first.isEmpty) false command =
          some parens ∧ Matched parens) := by
  have hForm : Form.ofText (ofText text).text =
      .captureAssign name command := h
  rcases Form.exists_of_captureAssign hForm with
    ⟨value, hAssigned, hCommand⟩
  have hValue := (Pattern.exists_of_assignment? hAssigned).1
  rw [hText] at hValue
  have hValue := List.append_cancel_left hValue
  rw [List.cons.injEq, List.append_assoc] at hValue
  rcases hCommand with hCommand | hCommand
  · rcases Pattern.exists_of_enclosed?
      (Option.filter_eq_some_iff.mp hCommand).1 with
      ⟨other, hOther, last, hLast, hSplit⟩
    rw [Text.ofString_ofList, Text.ofString_ofList, ← hValue.2,
      List.append_assoc] at hSplit
    rcases Pattern.optionalQuote_inj hFirst hOther (by simp)
      (by simp) hSplit with ⟨-, hRest⟩
    have hRest := List.append_cancel_left hRest
    refine ⟨last, hLast, hRest, ?_⟩
    rw [hRest]
    exact closesAt_iff_matched hFirst command last
  · rcases Pattern.exists_of_enclosed?
      (Option.filter_eq_some_iff.mp hCommand).1 with
      ⟨other, hOther, last, hLast, hSplit⟩
    rw [← hValue.2, List.append_assoc] at hSplit
    rcases Pattern.optionalQuote_inj hFirst hOther (by simp)
      (by simp) hSplit with ⟨-, hRest⟩
    simp at hRest

/- An escaped parenthesis has no partner. -/
theorem capture_closesAt_iff_of_nested :
    let text : Text := "x=\"$(a (b \\)) $(c))\";"
    let command : Text := "a (b \\)) $(c)"
    let first : Text := ['\x22']
    let rest : Text := "a (b \\)) $(c))\""
    (ofText text).form = .captureAssign "x" command ∧
    first ∈ Pattern.optionalQuote ∧
    (ofText text).text =
      Text.ofString "x" ++ '=' :: (first ++ ['$', '('] ++ rest) ∧
    ∃ last ∈ Pattern.optionalQuote,
      rest = command ++ ')' :: last ∧
      (ClosesAt (first ++ ['$', '('] ++ rest) (first.length + 2)
          (first.length + 2 + command.length) ↔
        ∃ parens, parens? false (!first.isEmpty) false command =
          some parens ∧ Matched parens) := by
  intro text command first rest
  have hForm : (ofText text).form =
      .captureAssign "x" command := by
    unfold text command
    repeat rw [Text.ofString_ofList]
    decide +kernel
  have hText : (ofText text).text = Text.ofString "x" ++
      '=' :: (first ++ ['$', '('] ++ rest) := by
    unfold text rest
    repeat rw [Text.ofString_ofList]
    decide +kernel
  have hFirst : first ∈ Pattern.optionalQuote := by decide
  exact ⟨hForm, hFirst, hText,
    capture_closesAt_iff hForm hFirst hText⟩

/-
  Two substitutions are captured as one command.  The first
  parenthesis closes the first of them.
-/
theorem capture_of_two :
    let text : Text := "x=$(a) $(b)"
    let value : Text := "$(a) $(b)"
    (ofText text).form = .captureAssign "x" "a) $(b" ∧
      (ofText text).text = Text.ofString "x" ++ '=' :: value ∧
      ClosesAt value 2 3 ∧ ¬ ClosesAt value 2 8 := by
  intro text value
  unfold text value
  repeat rw [Text.ofString_ofList]
  refine ⟨by decide +kernel, by decide +kernel, ?_, ?_⟩
  · refine ⟨?_, by decide⟩
    intro n hOpened hClosing
    have hn : n = 2 ∨ n = 3 := by omega
    rcases hn with rfl | rfl <;> decide
  · intro h
    exact absurd (h.stays 4 (by decide) (by decide)) (by decide)

end Command

end ShellToC
