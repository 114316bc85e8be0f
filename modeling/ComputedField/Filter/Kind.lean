import ComputedField.Filter.Phrase
import ComputedField.Text.Blank
import ComputedField.Text.Search

/-!
# Kinds of filters

A filter is a list of tokens. A marker at the front of the first one, or a numeric phrase in it,
says what kind of filter it is; without either, every token is a value to be found.
-/

namespace ComputedField.Filter

open Text

inductive Kind where
  | regex (pattern : String) (negated : Bool)
  | boolean (query : String) (negated : Bool)
  | pattern (kind : MatchKind) (text : String) (negated : Bool)
  | numeric
  /-- Every token is to be found, each in a record of its own. -/
  | conjunctive
  /-- Any token is to be found. -/
  | disjunctive
  deriving DecidableEq, Repr

/-- What follows `regexp:` in any case. -/
def afterRegexp? (s : List Char) : Option (List Char) :=
  (stripFolded? "regexp:".toList s).map trimLeft

/-- What follows the marker of a regular expression, and whether it is negated, with or without a
dash. -/
def regexMarker? (s : List Char) : Option (Bool × List Char) :=
  match afterRegexp? s with
  | some rest => some (false, rest)
  | none =>
    (stripFolded? "not".toList s).bind fun rest =>
      (afterRegexp? ((stripPrefix? ['-'] rest).getD rest)).map fun rest => (true, rest)

/-- What follows one of some words and a colon. -/
def afterWord? (words : List String) (s : List Char) : Option (String × List Char) :=
  words.findSome? fun word =>
    (stripPrefix? (word.toList ++ [':']) s).map fun rest => (word, rest)

/-- A word before the colon and what follows it, and whether `not-` stands before them. -/
def marker? (words : List String) (s : List Char) : Option (Bool × String × List Char) :=
  match stripPrefix? "not-".toList s with
  | some rest => (afterWord? words rest).map fun (word, rest) => (true, word, rest)
  | none => (afterWord? words s).map fun (word, rest) => (false, word, rest)

def booleanMarker? (s : List Char) : Option (Bool × List Char) :=
  (marker? ["boolean", "search"] s).map fun (negated, _, rest) => (negated, rest)

def patternMarker? (s : List Char) : Option (Bool × MatchKind × List Char) :=
  (marker? (MatchKind.all.map (·.name)) s).bind fun (negated, word, rest) =>
    (MatchKind.ofName? word).map fun kind => (negated, kind, rest)

/-- The kind that the first token marks, given all tokens after it. -/
def markedKind? (first : List Char) (others : List String) : Option Kind :=
  match regexMarker? first with
  | some (negated, rest) => some (.regex (String.ofList rest) negated)
  | none =>
    match booleanMarker? first with
    | some (negated, rest) =>
      let query := " + ".toList.intercalate (rest :: others.map (·.toList))
      some (.boolean (String.ofList (trim query)) negated)
    | none =>
      match patternMarker? first with
      | some (negated, kind, rest) => some (.pattern kind (String.ofList (trim rest)) negated)
      | none => if (phrase? first).isSome then some .numeric else none

/-- The kind of a filter; `all` tells whether every token counts where nothing marks a kind. -/
def Kind.of (tokens : List String) (all : Bool) : Kind :=
  (markedKind? (tokens.headD "").toList tokens.tail).getD
    (if all then .conjunctive else .disjunctive)

end ComputedField.Filter
