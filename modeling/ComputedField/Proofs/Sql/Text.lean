import ComputedField.Sql.Literal

/-!
# Texts in quotes

How a server reads a text in single quotes, and that it reads every text as it was before it was
written.
-/

namespace ComputedField.Sql

/-- What a backslash stands for together with the character behind it. A wildcard keeps its
backslash, so that a pattern can have it. -/
def unescape : Char → List Char
  | '0' => ['\x00']
  | 'n' => ['\n']
  | 'r' => ['\r']
  | 't' => ['\t']
  | 'b' => ['\x08']
  | 'Z' => ['\x1A']
  | '%' => ['\\', '%']
  | '_' => ['\\', '_']
  | c => [c]

/-- Reads a text from behind its opening quote, and what follows the closing one. Two quotes in a row
are one of the text. -/
def readText : List Char → Option (List Char × List Char)
  | [] => none
  | '\\' :: [] => none
  | '\\' :: c :: rest => (readText rest).map fun (s, after) => (unescape c ++ s, after)
  | '\'' :: '\'' :: rest => (readText rest).map fun (s, after) => ('\'' :: s, after)
  | '\'' :: rest => some ([], rest)
  | c :: rest => (readText rest).map fun (s, after) => (c :: s, after)

theorem length_readText {s t after : List Char} (h : readText s = some (t, after)) :
    after.length < s.length := by
  fun_induction readText s generalizing t with
  | case1 => cases h
  | case2 => cases h
  | case5 rest hquote =>
    cases h
    simp
  | case3 c rest ih | case4 rest ih | case6 c rest _ _ _ _ ih =>
    obtain ⟨⟨u, tail⟩, hu, he⟩ := Option.map_eq_some_iff.mp h
    cases he
    have := ih hu
    simp only [List.length_cons]
    omega

/-- An escaped character is read back as itself. -/
theorem readText_escapeLiteralChar (c : Char) (rest : List Char) :
    readText (escapeLiteralChar c ++ rest) =
      (readText rest).map fun (s, after) => (c :: s, after) := by
  unfold escapeLiteralChar
  split
  case h_8 =>
    rename_i hslash hquote _ _
    rw [List.singleton_append, readText]
    · intro he
      exact absurd he hslash
    · intro d tail he
      exact absurd he hslash
    · intro tail he
      exact absurd he hquote
    · exact hquote
  all_goals rfl

/-- A text is read back as it was written, in front of anything but another quote. -/
theorem readText_escapeLiteral (s : List Char) {rest : List Char} (h : rest.head? ≠ some '\'') :
    readText (escapeLiteral s ++ '\'' :: rest) = some (s, rest) := by
  induction s with
  | nil =>
    rw [escapeLiteral, List.flatMap_nil, List.nil_append, readText]
    intro tail he
    rw [he] at h
    exact h rfl
  | cons c s ih =>
    rw [escapeLiteral, List.flatMap_cons, List.append_assoc, readText_escapeLiteralChar]
    rw [escapeLiteral] at ih
    rw [ih]
    rfl

end ComputedField.Sql
