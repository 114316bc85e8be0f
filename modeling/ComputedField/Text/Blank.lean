import ComputedField.Text.Runs

/-!
# Blanks

The characters with the Unicode property White_Space, and what is done with runs of them: trimming,
splitting into words, and joining words by single spaces.
-/

namespace ComputedField.Text

def isBlank (c : Char) : Bool :=
  let n := c.toNat
  (0x09 ≤ n && n ≤ 0x0D) || n == 0x20 || n == 0x85 || n == 0xA0 || n == 0x1680
    || (0x2000 ≤ n && n ≤ 0x200A) || n == 0x2028 || n == 0x2029 || n == 0x202F || n == 0x205F
    || n == 0x3000

def trimLeft (s : List Char) : List Char := s.dropWhile isBlank

/-- Drops the blanks at the end of a text. -/
def trimRight : List Char → List Char
  | [] => []
  | c :: rest =>
    match trimRight rest with
    | [] => if isBlank c then [] else [c]
    | kept => c :: kept

def trim (s : List Char) : List Char := trimRight (trimLeft s)

/-- The maximal runs of characters that are not blank. -/
def words (s : List Char) : List (List Char) := runs (fun c => !isBlank c) s

/-- The words of a text with one space between neighbours. -/
def collapse (s : List Char) : List Char := [' '].intercalate (words s)

def trimmed (s : String) : String := String.ofList (trim s.toList)

def isAllBlank (s : String) : Bool := s.toList.all isBlank

end ComputedField.Text
