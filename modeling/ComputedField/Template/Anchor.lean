import ComputedField.Text.Search

/-!
# Anchored paths

What is written in a placeholder becomes a query for the whole document. Two spellings for the entry
at hand become searches; a path that begins with the name of the document element, or a call whose
first argument does, is made absolute; a slash alone stands for the document element.
-/

namespace ComputedField.Template

open Text

/-- The spellings for the entry at hand: anywhere below the document, or at its top. -/
def anchorEntry? (path : List Char) : Option (List Char) :=
  match stripPrefix? "entry/".toList path with
  | some rest => some ('/' :: '/' :: rest)
  | none => (stripPrefix? "/entry/".toList path).map ('/' :: ·)

/-- Puts a slash before the name where it first follows a parenthesis. -/
def anchorCall? (root path : List Char) : Option (List Char) :=
  (splitOnce? ('(' :: root) path).map fun (before, after) =>
    before ++ '(' :: '/' :: (root ++ after)

/-- Makes absolute what begins with the name of the document element. -/
def anchorRoot? (root path : List Char) : Option (List Char) :=
  if root.isEmpty then none
  else if root.isPrefixOf path then some ('/' :: path)
  else anchorCall? root path

/-- The query for what a placeholder says; `root` is the name of the document element, or empty
without one. -/
def anchor (root path : List Char) : List Char :=
  match anchorEntry? path with
  | some anchored => anchored
  | none =>
    match anchorRoot? root path with
    | some anchored => anchored
    | none => if path = ['/'] then '/' :: root else path

end ComputedField.Template
