import ShellToC.Proofs.Quiet

/-
  This file writes tests and arithmetic once more, as
  requests: every helper is needed as soon as the part of
  the text that calls it is written, and a fault may come up
  at any time.  What was needed by then stays needed.

  A request grants what is read from the same text without
  any requests.  So helpers are needed in the same order,
  and where nothing can be read none has been needed.

  Key definitions include:
    * `HelperRequest`
    * `HelperRequest.Grants`
    * `Condition.request`
    * `ArithExpr.request`

  Main declarations:
    * `Condition.grants_request`
    * `ArithExpr.grants_request`
-/

namespace ShellToC

------------------------------------------------------------
-- Requests
------------------------------------------------------------

theorem Usage.requireAll_append
    (usage : Usage)
    (a b : List Helper) :
    usage.requireAll (a ++ b) =
      (usage.requireAll a).requireAll b :=
  List.foldl_append

/- Something written, or a fault, and the helpers needed by then. -/
abbrev HelperRequest (α : Type) :=
  ExceptT Fault (StateM Usage) α

namespace HelperRequest

variable {α β : Type}

/- What a request makes of the helpers needed so far. -/
def outcome
    (request : HelperRequest α)
    (usage : Usage) : Except Fault α × Usage :=
  StateT.run (ExceptT.run request) usage

/- Need a helper. -/
def require
    (helper : Helper) : HelperRequest Unit :=
  modify fun usage => usage.require helper

/- Go on with what was read, if it could be. -/
def ofResult
    (result : Except Fault α) : HelperRequest α :=
  ExceptT.mk (pure result)

@[simp] theorem outcome_pure
    (value : α)
    (usage : Usage) :
    (pure value : HelperRequest α).outcome usage =
      (.ok value, usage) := rfl

@[simp] theorem outcome_throw
    (fault : Fault)
    (usage : Usage) :
    (throw fault : HelperRequest α).outcome usage =
      (.error fault, usage) := rfl

@[simp] theorem outcome_require
    (helper : Helper)
    (usage : Usage) :
    (require helper).outcome usage =
      (.ok (), usage.require helper) := rfl

@[simp] theorem outcome_ofResult
    (result : Except Fault α)
    (usage : Usage) :
    (ofResult result).outcome usage = (result, usage) := rfl

/- A request goes on from the helpers that were needed before. -/
theorem outcome_bind
    (request : HelperRequest α)
    (next : α → HelperRequest β)
    (usage : Usage) :
    (request >>= next).outcome usage =
      match request.outcome usage with
      | (.ok value, needed) => (next value).outcome needed
      | (.error fault, needed) => (.error fault, needed) := by
  have hRun : (request >>= next).outcome usage =
      ((StateT.run (ExceptT.run request) usage) |> fun result =>
        (ExceptT.bindCont next result.1).run result.2) := rfl
  rw [hRun, outcome]
  generalize StateT.run (ExceptT.run request) usage = result
  rcases result with ⟨value, needed⟩
  cases value <;> rfl

/-
  The request writes the text of what is read and needs its
  helpers.  If nothing can be read, no helper is needed.
-/
def Grants
    (request : HelperRequest Text)
    (result : Except Fault (Text × List Helper)) : Prop :=
  ∀ usage, request.outcome usage =
    match result with
    | .ok (text, needs) => (.ok text, usage.requireAll needs)
    | .error fault => (.error fault, usage)

/- A request that ends in a fault leaves the helpers as they are. -/
theorem Grants.usage_eq
    {request : HelperRequest Text}
    {result : Except Fault (Text × List Helper)}
    (h : request.Grants result)
    {fault : Fault}
    {usage needed : Usage}
    (hFault : request.outcome usage = (.error fault, needed)) :
    needed = usage := by
  rw [h usage] at hFault
  cases result with
  | ok written => cases hFault
  | error other => exact (Prod.mk.inj hFault).2.symm

end HelperRequest

open HelperRequest

------------------------------------------------------------
-- Operands
------------------------------------------------------------

namespace Operand

/- Write the operand as a string, unless it is a number. -/
def requestString : Operand → HelperRequest (Option Text)
  | .value (.var name) => do
      require .var
      return some (callText Helper.var.name (Literal.quote name))
  | .value .status => return none
  | .value .backgroundPid => return none
  | .literal text => return some (Literal.quote text)

/- Write the operand as an integer. -/
def requestInt : Operand → HelperRequest Text
  | .value (.var name) => do
      require .var
      require .int
      return callText Helper.int.name
        (callText Helper.var.name (Literal.quote name))
  | .value .status => return statusVariable
  | .value .backgroundPid => return jobVariable
  | .literal text =>
      match Text.toInt64? (Text.trim text) with
      | some n => return Text.ofInt n ++ "L"
      | none => do
          require .int
          return callText Helper.int.name (Literal.quote text)

/- Write whether the operand is not empty. -/
def requestNonempty : Operand → HelperRequest Text
  | .value (.var name) => do
      require .var
      return "(" ++
        callText Helper.var.name (Literal.quote name) ++
        "[0] != \x27\x5c0\x27)"
  | .value .status => return "1"
  | .value .backgroundPid => return "1"
  | .literal text => return if text.isEmpty then "0" else "1"

theorem outcome_requestString
    (operand : Operand)
    (usage : Usage) :
    operand.requestString.outcome usage =
      match operand.stringExpr? with
      | some e => (.ok (some e.render),
          usage.requireAll e.needs)
      | none => (.ok none, usage) := by
  cases operand with
  | value arg => cases arg <;> rfl
  | literal text => rfl

theorem outcome_requestInt
    (operand : Operand)
    (usage : Usage) :
    operand.requestInt.outcome usage =
      (.ok operand.intExpr.render,
        usage.requireAll operand.intExpr.needs) := by
  cases operand with
  | value arg => cases arg <;> rfl
  | literal text =>
      cases hNumeral : Text.toInt64? (Text.trim text) with
      | none =>
          simp only [requestInt, intExpr, hNumeral]
          rfl
      | some n =>
          simp only [requestInt, intExpr, hNumeral]
          rfl

theorem grants_requestNonempty
    (operand : Operand) :
    operand.requestNonempty.Grants
      (.ok (operand.nonemptyExpr.render,
        operand.nonemptyExpr.needs)) := by
  intro usage
  cases operand with
  | value arg => cases arg <;> rfl
  | literal text => cases text <;> rfl

end Operand

------------------------------------------------------------
-- Conditions
------------------------------------------------------------

namespace Comparison

/- Write a comparison of integers. -/
def requestInts
    (rel : Relation)
    (left right : Operand) : HelperRequest Text := do
  let l ← left.requestInt
  let r ← right.requestInt
  return "(" ++ l ++ " " ++ rel.symbol ++ " " ++ r ++ ")"

/- Write a comparison. -/
def request
    (comparison : Comparison)
    (left right : Operand) : HelperRequest Text := do
  if comparison.ofStrings && left.stringExpr?.isSome &&
      right.stringExpr?.isSome then
    let l ← left.requestString
    let r ← right.requestString
    match l, r with
    | some l, some r =>
        return "(" ++ callText "strcmp" (l ++ ", " ++ r) ++
          " " ++ comparison.rel.symbol ++ " 0)"
    | _, _ => requestInts comparison.rel left right
  else
    requestInts comparison.rel left right

/- Write the comparison that three words make, if they do. -/
def requestWords? : List Text → Option (HelperRequest Text)
  | [left, op, right] =>
      (ofText? op).map fun comparison => do
        let l ← ofResult (Operand.ofWord left)
        let r ← ofResult (Operand.ofWord right)
        comparison.request l r
  | _ => none

theorem grants_requestInts
    (rel : Relation)
    (left right : Operand) :
    (requestInts rel left right).Grants
      (.ok ((BoolExpr.compareInts rel left.intExpr
          right.intExpr).render,
        left.intExpr.needs ++ right.intExpr.needs)) := by
  intro usage
  simp only [requestInts, outcome_bind,
    Operand.outcome_requestInt, outcome_pure,
    Usage.requireAll_append]
  rfl

theorem grants_request
    (comparison : Comparison)
    (left right : Operand) :
    (comparison.request left right).Grants
      (.ok ((comparison.compare left right).render,
        (comparison.compare left right).needs)) := by
  rcases comparison with ⟨ofStrings, rel⟩
  have hInts := grants_requestInts rel left right
  -- Strings are compared only if both operands are strings.
  cases ofStrings with
  | false => exact hInts
  | true =>
      intro usage
      have hLeft := left.outcome_requestString usage
      have hRight := fun needed =>
        right.outcome_requestString needed
      cases hl : left.stringExpr? with
      | none =>
          simp only [request, compare, hl]
          exact hInts usage
      | some l =>
          cases hr : right.stringExpr? with
          | none =>
              simp only [request, compare, hl, hr]
              exact hInts usage
          | some r =>
              simp only [hl] at hLeft
              simp only [hr] at hRight
              simp only [request, compare, hl, hr,
                Option.isSome_some, Bool.and_true, if_true,
                outcome_bind, hLeft, hRight, outcome_pure,
                BoolExpr.needs, Usage.requireAll_append]
              rfl

end Comparison

namespace Condition

/- The question that an operator asks about a path. -/
def pathTest?
    (op : Text) : Option PathTest :=
  if op = "-e" then
    some .anything
  else if op = "-f" then
    some .file
  else if op = "-d" then
    some .directory
  else
    none

/- The opposite of a text.  Constants are decided here. -/
def negateText
    (text : Text) : Text :=
  if text = "0" then
    "1"
  else if text = "1" then
    "0"
  else
    "!" ++ text

/- Write an operator applied to an operand. -/
def requestUnary
    (op : Text)
    (operand : Operand) : HelperRequest Text :=
  if op = "-n" then
    operand.requestNonempty
  else if op = "-z" then do
    let e ← operand.requestNonempty
    return negateText e
  else
    match pathTest? op with
    | some test => do
        match ← operand.requestString with
        | some path =>
            require test.helper
            return callText test.helper.name path
        | none => return "0"
    | none => throw (.operator op)

/-
  Write what words say that make no comparison, given what
  those behind the first say.
-/
def requestOther
    (first : Text)
    (rest : List Text)
    (negated : HelperRequest Text) : HelperRequest Text :=
  if first = "!" then do
    let e ← negated
    return "!" ++ e
  else
    match rest with
    | [word] => do
        let operand ← ofResult (Operand.ofWord word)
        requestUnary first operand
    | [op, _] => throw (.operator op)
    | _ =>
        throw (.construct
          ("test expression with " ++
            Text.ofNat (rest.length + 1) ++ " words"))

/- Write what the words of a test say. -/
def requestWords : List Text → HelperRequest Text
  | [] => throw (.construct "empty test expression")
  | [word] => do
      let operand ← ofResult (Operand.ofWord word)
      operand.requestNonempty
  | first :: rest =>
      (Comparison.requestWords? (first :: rest)).getD
        (requestOther first rest (requestWords rest))

/- Write what the text of a test says. -/
def request
    (expr : Text) : HelperRequest Text :=
  requestWords (Word.split expr)

/- What is read from the words of a test, as text with its needs. -/
def written
    (result : Except Fault BoolExpr) :
    Except Fault (Text × List Helper) :=
  result.map fun e => (e.render, e.needs)

theorem needs_negate
    (e : BoolExpr) :
    e.negate.needs = e.needs := by
  cases e <;> rfl

theorem negateText_render
    (operand : Operand) :
    negateText operand.nonemptyExpr.render =
      operand.nonemptyExpr.negate.render := by
  have hDigits : negateText "0" = "1" ∧ negateText "1" = "0" := by
    simp [negateText, Text.ofString_inj]
  cases operand with
  | literal text =>
      cases text with
      | nil => exact hDigits.1
      | cons c rest => exact hDigits.2
  | value arg =>
      cases arg with
      | status => exact hDigits.2
      | backgroundPid => exact hDigits.2
      | var name =>
          have hParen (digit : Char) (h : digit ≠ '(') :
              (BoolExpr.nonempty name).render ≠ [digit] := by
            intro hText
            have hHead := congrArg List.head? hText
            rw [BoolExpr.render, Text.ofString_eq "("] at hHead
            exact h (Option.some.inj hHead).symm
          have hZero : (BoolExpr.nonempty name).render ≠
              Text.ofString "0" := by
            rw [Text.ofString_ofList]
            exact hParen '0' (by decide)
          have hOne : (BoolExpr.nonempty name).render ≠
              Text.ofString "1" := by
            rw [Text.ofString_ofList]
            exact hParen '1' (by decide)
          change negateText (BoolExpr.nonempty name).render = _
          rw [negateText, if_neg hZero, if_neg hOne]
          rfl

theorem grants_requestUnary
    (op : Text)
    (operand : Operand) :
    (requestUnary op operand).Grants
      (written (unary op operand)) := by
  have hNonempty := operand.grants_requestNonempty
  have hPath (test : PathTest) :
      (do
        match ← operand.requestString with
        | some path =>
            require test.helper
            return callText test.helper.name path
        | none => return "0" : HelperRequest Text).Grants
        (written (.ok (testPath test operand))) := by
    intro usage
    rw [outcome_bind, operand.outcome_requestString]
    cases hPath : operand.stringExpr? with
    | none =>
        simp only [written, testPath, hPath]
        rfl
    | some path =>
        simp only [written, testPath, hPath, outcome_bind,
          outcome_require, outcome_pure, Except.map,
          BoolExpr.needs, Usage.requireAll_append]
        rfl
  unfold requestUnary unary
  split
  · exact hNonempty
  split
  · intro usage
    rw [outcome_bind, hNonempty usage]
    simp only [outcome_pure, negateText_render, written,
      Except.map, needs_negate]
  by_cases hAny : op = "-e"
  · simp only [pathTest?, if_pos hAny]
    exact hPath .anything
  by_cases hFile : op = "-f"
  · simp only [pathTest?, if_neg hAny, if_pos hFile]
    exact hPath .file
  by_cases hDir : op = "-d"
  · simp only [pathTest?, if_neg hAny, if_neg hFile,
      if_pos hDir]
    exact hPath .directory
  · simp only [pathTest?, if_neg hAny, if_neg hFile,
      if_neg hDir]
    intro usage
    rfl

/- Words that make a comparison request one. -/
theorem exists_requestWords?
    {words : List Text}
    {result : Except Fault BoolExpr}
    (h : Comparison.ofWords? words = some result) :
    ∃ request, Comparison.requestWords? words = some request ∧
      request.Grants (written result) := by
  unfold Comparison.ofWords? at h
  split at h
  · rename_i left op right
    rcases Option.map_eq_some_iff.mp h with
      ⟨comparison, hOp, rfl⟩
    simp only [Comparison.requestWords?, hOp, Option.map_some]
    refine ⟨_, rfl, ?_⟩
    intro usage
    simp only [outcome_bind, outcome_ofResult,
      Comparison.ofWords]
    cases Operand.ofWord left with
    | error fault => rfl
    | ok l =>
        cases Operand.ofWord right with
        | error fault => rfl
        | ok r => exact comparison.grants_request l r usage
  · cases h

theorem requestWords?_eq_none
    {words : List Text}
    (h : Comparison.ofWords? words = none) :
    Comparison.requestWords? words = none := by
  unfold Comparison.ofWords? at h
  split at h
  · simp only [Option.map_eq_none_iff] at h
    simp [Comparison.requestWords?, h]
  · rename_i hOther
    unfold Comparison.requestWords?
    split
    · exact (hOther _ _ _ rfl).elim
    · rfl

theorem requestWords_cons
    (first : Text)
    {rest : List Text}
    (h : rest = [] → False) :
    requestWords (first :: rest) =
      (Comparison.requestWords? (first :: rest)).getD
        (requestOther first rest (requestWords rest)) := by
  cases rest with
  | nil => exact (h rfl).elim
  | cons second rest => rfl

/-
  Along the words of a test: a comparison, a negation of
  what follows, or an operator with its operand.
-/
theorem grants_requestWords
    (words : List Text) :
    (requestWords words).Grants (written (ofWords words)) := by
  fun_induction ofWords words with
  | case1 =>
      intro usage
      rfl
  | case2 word =>
      intro usage
      simp only [requestWords, outcome_bind, outcome_ofResult]
      cases Operand.ofWord word with
      | error fault => rfl
      | ok operand => exact operand.grants_requestNonempty usage
  | case3 first rest hRest result hResult =>
      rcases exists_requestWords? hResult with
        ⟨request, hRequest, hGrants⟩
      rw [requestWords_cons first hRest, hRequest]
      exact hGrants
  | case4 rest hRest hNone ih =>
      rw [requestWords_cons _ hRest,
        requestWords?_eq_none hNone]
      intro usage
      simp only [Option.getD_none, requestOther, if_true,
        outcome_bind, ih usage]
      cases ofWords rest <;> rfl
  | case5 first hBang word hRest hNone =>
      rw [requestWords_cons first hRest,
        requestWords?_eq_none hNone]
      intro usage
      simp only [Option.getD_none, requestOther, hBang,
        if_false, outcome_bind, outcome_ofResult]
      cases Operand.ofWord word with
      | error fault => rfl
      | ok operand => exact grants_requestUnary first operand usage
  | case6 first hBang op right hRest hNone =>
      rw [requestWords_cons first hRest,
        requestWords?_eq_none hNone]
      intro usage
      simp only [Option.getD_none, requestOther, hBang,
        if_false]
      rfl
  | case7 first rest hRest hNone hBang hTwo hThree =>
      rw [requestWords_cons first hRest,
        requestWords?_eq_none hNone, Option.getD_none,
        requestOther, if_neg hBang]
      · intro usage
        rfl
      · exact hTwo
      · exact hThree

theorem grants_request
    (expr : Text) :
    (request expr).Grants (written (ofText expr)) :=
  grants_requestWords (Word.split expr)

end Condition

------------------------------------------------------------
-- Arithmetic
------------------------------------------------------------

/- Write a token. -/
def Token.request : Token → HelperRequest Text
  | .var name => do
      require .var
      require .int
      return callText Helper.int.name
        (callText Helper.var.name (Literal.quote name))
  | token => return token.render

namespace ArithExpr

/- Write an arithmetic expression. -/
def request
    (expr : Text) : HelperRequest Text := do
  let tokens ← ofResult (Token.ofText expr)
  if tokens.isEmpty then
    throw (.construct "empty arithmetic expression")
  let parts ← tokens.mapM Token.request
  return "(" ++ Text.joinWith " " parts ++ ")"

theorem outcome_mapM_request
    (tokens : List Token)
    (usage : Usage) :
    HelperRequest.outcome (tokens.mapM Token.request) usage =
      (.ok (tokens.map Token.render),
        usage.requireAll (tokens.flatMap Token.needs)) := by
  induction tokens generalizing usage with
  | nil => rfl
  | cons token tokens ih =>
      have hToken : token.request.outcome usage =
          (.ok token.render, usage.requireAll token.needs) := by
        cases token <;> rfl
      simp only [List.mapM_cons, outcome_bind, hToken, ih,
        outcome_pure, List.map_cons, List.flatMap_cons,
        Usage.requireAll_append]

/- What is read as an arithmetic expression, as text with its needs. -/
def written
    (result : Except Fault ArithExpr) :
    Except Fault (Text × List Helper) :=
  result.map fun e => (e.render, e.needs)

theorem grants_request
    (expr : Text) :
    (request expr).Grants (written (ofText expr)) := by
  intro usage
  simp only [request, outcome_bind, outcome_ofResult, ofText]
  cases Token.ofText expr with
  | error fault => rfl
  | ok tokens =>
      cases tokens with
      | nil => rfl
      | cons token tokens =>
          simp only [List.isEmpty_cons, Bool.false_eq_true,
            if_false, outcome_bind, outcome_mapM_request,
            outcome_pure]
          rfl

end ArithExpr

end ShellToC
