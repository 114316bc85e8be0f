import ComputedField.Text.Blank
import ComputedField.Text.LowerCase

/-!
# Handles

A handle names a value in an address: its words in lower case with dashes between them. Tags, dots
and quotes are dropped first, and the text is cut to a length; all other punctuation separates words
as blanks do.
-/

namespace ComputedField.Format

open Text

def defaultHandleLength : Nat := 255

/-- Drops everything from `<` to the next `>`. -/
def stripTagsFrom (inTag : Bool) : List Char → List Char
  | [] => []
  | c :: rest =>
    if inTag then stripTagsFrom (c != '>') rest
    else if c = '<' ∧ '>' ∈ rest then stripTagsFrom true rest
    else c :: stripTagsFrom false rest

def stripTags (s : List Char) : List Char := stripTagsFrom false s

/-- The characters that leave no gap where they are dropped. -/
def isDropped (c : Char) : Bool := c == '.' || c == '\'' || c == '"'

def punctuation : List Char :=
  "!\"#$%&'()*+,-./:;<>?@[\\]^_\x60‘’…".toList

def isHandleChar (c : Char) : Bool := !isBlank c && !punctuation.contains c

/-- The text that a handle is made of. -/
def handleSource (maxLength : Nat) (text : List Char) : List Char :=
  ((stripTags text).filter (!isDropped ·)).take maxLength

/-- The words of a handle with dashes between them, or nothing without any word. -/
def handle? (maxLength : Nat) (text : String) : Option String :=
  match runs isHandleChar (handleSource maxLength text.toList) with
  | [] => none
  | parts => some (String.ofList (lower (['-'].intercalate parts)))

end ComputedField.Format
