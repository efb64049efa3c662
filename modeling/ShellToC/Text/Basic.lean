/-
  This file defines the text that the library reads and
  writes, and the character classes it distinguishes.

  Text is a list of characters, so that every reader and
  writer is a recursion on the characters themselves.

  Key definitions include:
    * `Text`
    * `Text.ofString`
    * `Text.isBlank`
    * `Text.trim`
    * `Text.isName`
    * `Text.occursIn`
    * `Text.dropLead?`
    * `Text.dropTail?`
    * `Text.joinWith`
-/

namespace ShellToC

------------------------------------------------------------
-- Text
------------------------------------------------------------

/- A text is a list of characters. -/
abbrev Text :=
  List Char

namespace Text

/-
  The characters of a string.  This stays folded, so that a
  literal is met as a literal and not as its characters.
-/
@[irreducible] def ofString
    (s : String) : Text :=
  s.toList

/- What a literal unfolds to. -/
theorem ofString_eq
    (s : String) :
    ofString s = s.toList := by
  unfold ofString
  rfl

/-
  A literal stands for the list of its characters.  It is
  faster to compute with these than to decode the literal.
-/
theorem ofString_ofList
    (cs : List Char) :
    ofString (String.ofList cs) = cs := by
  rw [ofString_eq, String.toList_ofList]

theorem ofString_inj
    {a b : String} :
    ofString a = ofString b ↔ a = b := by
  rw [ofString_eq, ofString_eq, String.toList_inj]

end Text

/- A string literal may stand wherever a text is expected. -/
instance : Coe String Text :=
  ⟨Text.ofString⟩

namespace Text

------------------------------------------------------------
-- Character Classes
------------------------------------------------------------

/-
  The code point ranges of the Unicode property
  White_Space, both ends included.
-/
def blankRanges : List (Nat × Nat) :=
  [(0x09, 0x0D), (0x20, 0x20), (0x85, 0x85), (0xA0, 0xA0),
   (0x1680, 0x1680), (0x2000, 0x200A), (0x2028, 0x2029),
   (0x202F, 0x202F), (0x205F, 0x205F), (0x3000, 0x3000)]

/- A blank is a character with the property White_Space. -/
def isBlank
    (c : Char) : Bool :=
  blankRanges.any fun range =>
    range.1 ≤ c.toNat && c.toNat ≤ range.2

/- Names start with an ASCII letter or an underscore. -/
def isNameStart
    (c : Char) : Bool :=
  c.isAlpha || c == '_'

/- Names go on with ASCII letters, digits and underscores. -/
def isNameChar
    (c : Char) : Bool :=
  c.isAlphanum || c == '_'

/- A name is a name start followed by name characters. -/
def isName : Text → Bool
  | [] => false
  | c :: rest => isNameStart c && rest.all isNameChar

/- The characters that a line of text holds: all but the line feed. -/
def onOneLine
    (text : Text) : Bool :=
  text.all (· != '\n')

------------------------------------------------------------
-- Trimming
------------------------------------------------------------

/- The text without its leading blanks. -/
def trimStart
    (text : Text) : Text :=
  text.dropWhile isBlank

/- Dropping a run of characters leaves no more than there was. -/
theorem length_dropWhile_le
    (p : Char → Bool)
    (text : Text) :
    (text.dropWhile p).length ≤ text.length :=
  (List.dropWhile_sublist p).length_le

/- The text without its trailing blanks. -/
def trimEnd
    (text : Text) : Text :=
  (text.reverse.dropWhile isBlank).reverse

/- The text without the blanks at either end. -/
def trim
    (text : Text) : Text :=
  trimEnd (trimStart text)

/- A text is blank if it holds nothing but blanks. -/
def isAllBlank
    (text : Text) : Bool :=
  text.all isBlank

------------------------------------------------------------
-- Searching and Cutting
------------------------------------------------------------

/- Whether `part` stands somewhere in the text. -/
def occursIn
    (part : Text) : Text → Bool
  | [] => part.isEmpty
  | c :: rest =>
      part.isPrefixOf (c :: rest) || occursIn part rest

/- What follows `lead` in a text that starts with it. -/
def dropLead?
    (lead text : Text) : Option Text :=
  lead.isPrefixOf? text

/- A lead and what follows it make up the whole text. -/
theorem length_dropLead?
    {lead text rest : Text}
    (h : dropLead? lead text = some rest) :
    rest.length + lead.length = text.length := by
  induction lead generalizing text with
  | nil =>
      have hText : some text = some rest := h
      simp [Option.some.inj hText]
  | cons c lead ih =>
      cases text with
      | nil => contradiction
      | cons d text =>
          have hRest : (if c == d then dropLead? lead text
              else none) = some rest := h
          split at hRest
          · have := ih hRest
            simp only [List.length_cons]
            omega
          · simp at hRest

/- What precedes `tail` in a text that ends with it. -/
def dropTail?
    (tail text : Text) : Option Text :=
  (tail.reverse.isPrefixOf? text.reverse).map List.reverse

/- Replace every occurrence of a character by a text. -/
def replaceChar
    (old : Char)
    (new : Text)
    (text : Text) : Text :=
  text.flatMap fun c => if c = old then new else [c]

------------------------------------------------------------
-- Assembling
------------------------------------------------------------

/- The parts in order, with `separator` between neighbours. -/
def joinWith
    (separator : Text)
    (parts : List Text) : Text :=
  List.intercalate separator parts

/- The text repeated `count` times. -/
def repeated
    (count : Nat)
    (text : Text) : Text :=
  (List.replicate count text).flatten

end Text

end ShellToC
