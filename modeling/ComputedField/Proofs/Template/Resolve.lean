import Mathlib.Data.List.Basic
import ComputedField.Proofs.Query.Enclosing
import ComputedField.Proofs.Query.Joining
import ComputedField.Template.Compile

/-!
# Resolving a path

A path is resolved by a query that holds its text between the parentheses of a call. That query says the
same as the path, unless there is no level left for the call.
-/

namespace ComputedField.Template

open Markup (Document)
open Query Text

def textQuery (path : String) : String := "string(" ++ path ++ ")"

section Tokens

variable {path : String} {ts : List Token}

theorem tokensAfter_string (s : List Char) :
    tokensAfter none ("string".toList ++ '(' :: s) =
      (tokensAfter none s).map (.name "string" :: .openParen :: ·) := by
  have hname : tokensAfter none "string".toList = .ok [.name "string"] := by cbv
  have hbehind : tokensAfter (some .openParen) s = tokensAfter none s := tokensAfter_congr (by rfl) s
  rw [tokensAfter_append .opening hname, hbehind]
  rfl

theorem toList_textQuery (path : String) :
    (textQuery path).toList = "string".toList ++ '(' :: (path.toList ++ [')']) := by
  simp [textQuery]

theorem tokenize_textQuery (h : tokenize path = .ok ts) :
    tokenize (textQuery path) = .ok (callTokens .string ts) := by
  rw [tokenize_eq_ok_iff, toList_textQuery, tokensAfter_string,
    tokensAfter_close (tokenize_eq_ok_iff.mp h)]
  rfl

end Tokens

theorem resolve_askDocument (d : Document) (path : String) :
    resolve (m := Id) (askDocument d) path =
      trimmed ((evaluateText d (textQuery path)).toOption.getD "") := rfl

section Values

variable {d : Document} {path : String} {v : Value}

section Tokens

variable {ts : List Token}

/-- What the call comes to is trimmed. -/
theorem resolve_eq_of_eval {e : Expr} {a : Atom} (hpath : tokenize path = .ok ts)
    (h : Expr.ofTokens (callTokens .string ts) = .ok e) (he : e.eval d .ofRoot = .ok (.atom a)) :
    resolve (m := Id) (askDocument d) path = trimmed a.toText := by
  have hvalue : evaluate d (textQuery path) = .ok (.atom a) := by
    rw [evaluate, parse_of_tokenize (tokenize_textQuery hpath), h]
    exact he
  rw [resolve_askDocument, evaluateText, hvalue]
  rfl

theorem resolve_eq_of_error {e : Query.Error} (hpath : tokenize path = .ok ts)
    (h : Expr.ofTokens (callTokens .string ts) = .error e) :
    resolve (m := Id) (askDocument d) path = "" := by
  rw [resolve_askDocument, evaluateText, evaluate, parse_of_tokenize (tokenize_textQuery hpath), h]
  rfl

end Tokens

end Values

def oneText : Document := .ofContent [.element "a" [] [.text "x"]]

end ComputedField.Template
