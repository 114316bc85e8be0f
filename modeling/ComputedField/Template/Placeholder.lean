import ComputedField.Text.Search

/-!
# Placeholders

A template is text with placeholders in braces. A placeholder goes from its opening brace to the
next closing one and holds at least one character; an opening brace without such an end is text.
-/

namespace ComputedField.Template

inductive Piece where
  | plain (c : Char)
  | placeholder (inner : List Char)
  deriving DecidableEq, Repr

def Piece.characters : Piece → List Char
  | .plain c => [c]
  | .placeholder inner => '{' :: inner ++ ['}']

def notClosing (c : Char) : Bool := c != '}'

/-- The inside of a placeholder and what follows it, given what stands behind its brace. -/
def placeholderAt? (s : List Char) : Option (List Char × List Char) :=
  let inner := s.takeWhile notClosing
  match s.dropWhile notClosing with
  | [] => none
  | _ :: after => if inner.isEmpty then none else some (inner, after)

theorem length_placeholderAt? {s inner after : List Char}
    (h : placeholderAt? s = some (inner, after)) : after.length < s.length := by
  have hs : s.takeWhile notClosing ++ s.dropWhile notClosing = s := List.takeWhile_append_dropWhile
  simp only [placeholderAt?] at h
  split at h
  · cases h
  · rename_i c rest hd
    split at h
    · cases h
    · cases h
      rw [← hs, hd]
      simp
      omega

def pieces (s : List Char) : List Piece :=
  match s with
  | [] => []
  | c :: rest =>
    if c = '{' then
      match h : placeholderAt? rest with
      | some (inner, after) =>
        have := length_placeholderAt? h
        .placeholder inner :: pieces after
      | none => .plain c :: pieces rest
    else .plain c :: pieces rest
termination_by s.length

/-- The insides of the placeholders, each of them once, as they come. -/
def distinctInners (ps : List Piece) : List (List Char) :=
  (ps.filterMap fun
    | .plain _ => none
    | .placeholder inner => some inner).eraseDups

/-- The placeholders of a template, braces included, each of them once. -/
def placeholders (template : String) : List String :=
  (distinctInners (pieces template.toList)).map fun inner =>
    String.ofList (Piece.placeholder inner).characters

end ComputedField.Template
