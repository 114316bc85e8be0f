/-!
# Texts in any case

Two readings of a text that ignore case and differ outside ASCII. For the plain one only the letters
of ASCII have case. For the folded one two more characters are letters of ASCII: the long s is an
s, and the Kelvin sign is a k.
-/

namespace ComputedField.Text

/-- Whether a text is the given word in lower case, apart from the case of ASCII letters. -/
def isInAnyCase (word s : List Char) : Bool := s.map Char.toLower == word

/-- Whether a text begins with the given word in lower case, apart from the case of ASCII
letters. -/
def startsInAnyCase (word s : List Char) : Bool := word.isPrefixOf (s.map Char.toLower)

/-- The small letter of ASCII that a character is when case does not count. -/
def foldCase (c : Char) : Char :=
  if c = 'ſ' then 's' else if c = '\u212A' then 'k' else c.toLower

def isFoldedLetter (c : Char) : Bool := 'a' ≤ foldCase c && foldCase c ≤ 'z'

/-- Whether a text is the given word in lower case when case does not count. -/
def isFolded (word s : List Char) : Bool := s.map foldCase == word

/-- What follows the given word in lower case when case does not count. -/
def stripFolded? (word s : List Char) : Option (List Char) :=
  if isFolded word (s.take word.length) then some (s.drop word.length) else none

theorem append_of_stripFolded? {word s rest : List Char} (h : stripFolded? word s = some rest) :
    ∃ spelled, isFolded word spelled = true ∧ s = spelled ++ rest := by
  simp only [stripFolded?] at h
  split at h
  · rename_i hf
    cases h
    exact ⟨s.take word.length, hf, (List.take_append_drop ..).symm⟩
  · cases h

end ComputedField.Text
