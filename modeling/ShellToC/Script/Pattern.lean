import ShellToC.Text.Basic

/-
  This file defines the patterns by which statements are
  recognised.  Each one answers with the part of the text
  that it singles out, or with nothing.

  Key definitions include:
    * `Pattern.restOfLine?`
    * `Pattern.someRestOfLine?`
    * `Pattern.assignment?`
    * `Pattern.enclosed?`
    * `Pattern.bracketed?`
    * `Pattern.backgrounded?`
    * `Pattern.mentionsReference`
-/

namespace ShellToC

namespace Pattern

------------------------------------------------------------
-- Text after a Keyword
------------------------------------------------------------

/- Whether the text starts with a blank. -/
def startsBlank
    (text : Text) : Bool :=
  text.head?.any Text.isBlank

/- Whether the text ends with a blank. -/
def endsBlank
    (text : Text) : Bool :=
  text.getLast?.any Text.isBlank

/- One line, possibly empty, behind at least one blank. -/
def restOfLine?
    (text : Text) : Option Text :=
  if startsBlank text && (Text.trimStart text).onOneLine then
    some (Text.trimStart text)
  else
    none

/-
  One line that is not empty, behind at least one blank.
  Where only blanks are left, the last of them is the line.
-/
def someRestOfLine?
    (text : Text) : Option Text :=
  (restOfLine? text).bind fun rest =>
    if rest ≠ [] then
      some rest
    else
      match text.reverse with
      | last :: _ :: _ => if last ≠ '\n' then some [last] else none
      | _ => none

/- A keyword and what `after` finds behind it. -/
def keyword?
    (keyword : Text)
    (after : Text → Option α)
    (text : Text) : Option α :=
  (Text.dropLead? keyword text).bind after

/- Either nothing at all, or what `after` finds. -/
def optional?
    (after : Text → Option α)
    (text : Text) : Option (Option α) :=
  if text.isEmpty then some none else (after text).map some

/- Nothing but characters that are not blank, behind at least one blank. -/
def solidRest?
    (text : Text) : Option Text :=
  let rest := Text.trimStart text
  if startsBlank text && !rest.isEmpty && !rest.any Text.isBlank then
    some rest
  else
    none

------------------------------------------------------------
-- Names and Assignments
------------------------------------------------------------

/- The leading name of a text and what follows it. -/
def name?
    (text : Text) : Option (Text × Text) :=
  let name := text.takeWhile Text.isNameChar
  if Text.isName name then
    some (name, text.dropWhile Text.isNameChar)
  else
    none

/- A leading name and what follows it make up the text. -/
theorem append_of_name?
    {text name rest : Text}
    (h : name? text = some (name, rest)) :
    name ++ rest = text := by
  simp only [name?] at h
  split at h
  · simp only [Option.some.injEq, Prod.mk.injEq] at h
    obtain ⟨rfl, rfl⟩ := h
    exact List.takeWhile_append_dropWhile
  · contradiction

/- A name, an equals sign, and the value behind it. -/
def assignment?
    (text : Text) : Option (Text × Text) :=
  match name? text with
  | some (name, '=' :: value) => some (name, value)
  | _ => none

------------------------------------------------------------
-- Enclosed Text
------------------------------------------------------------

/- The text without a leading double quote, if it has one. -/
def dropDoubleQuote : Text → Text
  | '\x22' :: rest => rest
  | text => text

/-
  The text between an opening and a closing.  A double
  quote may stand before the one and behind the other, each
  independently of the other.
-/
def enclosed?
    (opening closing text : Text) : Option Text :=
  (Text.dropLead? opening (dropDoubleQuote text)).bind fun rest =>
    (Text.dropTail? closing rest).or
      (Text.dropTail? (closing ++ ['\x22']) rest)

/- The arithmetic expression that makes up a text. -/
def arithmetic?
    (text : Text) : Option Text :=
  (enclosed? "$((" "))" text).filter Text.onOneLine

/- The command whose substitution in parentheses makes up a text. -/
def parenthesised?
    (text : Text) : Option Text :=
  (enclosed? "$(" ")" text).filter Text.onOneLine

/- The command whose substitution in backticks makes up a text. -/
def backticked?
    (text : Text) : Option Text :=
  (enclosed? ['\x60'] ['\x60'] text).filter (!·.contains '\x60')

/-
  The text between brackets, apart from them by blanks on
  both sides.  Blanks alone must be two, one for each side.
-/
def bracketed?
    (opening closing text : Text) : Option Text :=
  (Text.dropLead? opening text).bind fun rest =>
    (Text.dropTail? closing rest).bind fun body =>
      if Text.isAllBlank body then
        if 2 ≤ body.length then some [] else none
      else if startsBlank body && endsBlank body &&
          (Text.trim body).onOneLine then
        some (Text.trim body)
      else
        none

/- The one-line command in front of a final ampersand. -/
def backgrounded?
    (text : Text) : Option Text :=
  (Text.dropTail? "&" text).bind fun rest =>
    let command := Text.trimEnd rest
    if !command.isEmpty && command.getLast? != some '&' &&
        Text.onOneLine command then
      some command
    else
      none

------------------------------------------------------------
-- Substitutions and References
------------------------------------------------------------

/- Whether a command substitution may start in the text. -/
def mentionsSubstitution
    (text : Text) : Bool :=
  Text.occursIn "$(" text || text.contains '\x60'

/- Whether a variable reference may start in the text. -/
def mentionsReference : Text → Bool
  | '$' :: c :: rest =>
      Text.isNameStart c || c == '\x7b' || c == '?' || c == '!' ||
        mentionsReference (c :: rest)
  | _ :: rest => mentionsReference rest
  | [] => false

end Pattern

end ShellToC
