import ComputedField.Decimal.Style
import ComputedField.Filter.Predicate

/-!
# Literals

Texts are written in single quotes, with a backslash before every character that could end the
literal or be taken for something else. In a pattern the two wildcards and the backslash have a
backslash before them already, so that they match themselves.
-/

namespace ComputedField.Sql

open ComputedField.Filter

def escapeLiteralChar (c : Char) : List Char :=
  match c with
  | '\x00' => ['\\', '0']
  | '\n' => ['\\', 'n']
  | '\r' => ['\\', 'r']
  | '\\' => ['\\', '\\']
  | '\'' => ['\\', '\'']
  | '"' => ['\\', '"']
  | '\x1A' => ['\\', 'Z']
  | c => [c]

def escapeLiteral (s : List Char) : List Char := s.flatMap escapeLiteralChar

def escapeLikeChar (c : Char) : List Char :=
  if c = '\\' ∨ c = '%' ∨ c = '_' then ['\\', c] else [c]

def escapeLike (s : List Char) : List Char := s.flatMap escapeLikeChar

def quoted (s : List Char) : List Char := '\'' :: escapeLiteral s ++ ['\'']

/-- The pattern that finds a text where `kind` says. -/
def likePattern (kind : MatchKind) (text : List Char) : List Char :=
  match kind with
  | .startsWith => escapeLike text ++ ['%']
  | .endsWith => '%' :: escapeLike text
  | .contains => '%' :: escapeLike text ++ ['%']

/-- The numeral of a number; both zeros are written without a sign. -/
def numeral (x : Float) : List Char :=
  if x == 0.0 then ['0'] else (Decimal.plainStyle.format x).toList

def literal : Literal → List Char
  | .text s => quoted s.toList
  | .number x => numeral x

end ComputedField.Sql
