import ComputedField.Proofs.Query.Anchoring
import ComputedField.Proofs.Template.Resolve
import ComputedField.Proofs.Text.Search

/-!
# Anchoring leaves the text of a path alone

Of the rewritings of a path, those for the document element only put a slash before its name. Where the
slash comes before a step, outside literals and predicates, the path is resolved as before.
-/

namespace ComputedField.Template

open Markup (Document NodeId)
open Query Text

/-- Whether a slash that anchors the path comes before a step: at its front, or behind the first
parenthesis that the name of the document element follows, outside literals and predicates. -/
def AnchorsStep (root path : List Char) : Prop :=
  if root.isEmpty then True
  else if root.isPrefixOf path then BeginsStep path
  else ∀ before after, splitOnce? ('(' :: root) path = some (before, after) →
    EndsOutside before ∧ BeginsStep (root ++ after)

section Anchoring

variable {d : Document} {path : String} {before behind : List Char}

theorem textQuery_eq (path : List Char) :
    textQuery (String.ofList path) = String.ofList ("string".toList ++ '(' :: (path ++ [')'])) := by
  apply String.toList_injective
  simp only [toList_textQuery, String.toList_ofList]

theorem resolve_ofList (path : List Char) :
    resolve (m := Id) (askDocument d) (String.ofList path) =
      trimmed ((evaluateText d (String.ofList ("string".toList ++ '(' :: (path ++ [')'])))).toOption.getD
        "") := by
  rw [resolve_askDocument, textQuery_eq]

theorem endsOutside_string : EndsOutside "string".toList := by
  have hname : tokensAfter none "string".toList = .ok [.name "string"] := by cbv
  rw [EndsOutside, hname]
  rfl

/-- What stands outside literals and predicates in a path stands so in the query for its text. -/
theorem endsOutside_append (h : EndsOutside before) :
    EndsOutside ("string".toList ++ '(' :: before) := by
  rw [EndsOutside, tokensAfter_string]
  rw [EndsOutside] at h
  cases htokens : tokensAfter none before with
  | ok ts =>
    rw [htokens] at h
    exact h
  | error f =>
    rw [htokens] at h
    exact h

/-- A slash in front of a step. -/
theorem resolve_slash (h : BeginsStep behind) :
    resolve (m := Id) (askDocument d) (String.ofList ('/' :: behind)) =
      resolve (m := Id) (askDocument d) (String.ofList behind) := by
  rw [resolve_ofList, resolve_ofList, List.cons_append, toOption_evaluateText_slash d endsOutside_string h]

/-- A slash between a parenthesis and a step, outside literals and predicates. -/
theorem resolve_paren_slash (hbefore : EndsOutside before) (hbehind : BeginsStep behind) :
    resolve (m := Id) (askDocument d) (String.ofList (before ++ '(' :: '/' :: behind)) =
      resolve (m := Id) (askDocument d) (String.ofList (before ++ '(' :: behind)) := by
  have hslash := toOption_evaluateText_slash d (endsOutside_append hbefore) hbehind
  simp only [List.append_assoc, List.cons_append] at hslash
  rw [resolve_ofList, resolve_ofList]
  simp only [List.append_assoc, List.cons_append]
  rw [hslash]

/-- A path is resolved as it was before it was anchored, if it is no path of the entry at hand and the
anchoring slash comes before a step, outside literals and predicates. -/
theorem resolve_pathOf (d : Document) (root path : String)
    (hentry : ¬"entry/".toList <+: path.toList) (hrooted : ¬"/entry/".toList <+: path.toList)
    (hslash : path ≠ "/") (hstep : AnchorsStep root.toList path.toList) :
    resolve (m := Id) (askDocument d) (pathOf root path.toList) =
      resolve (m := Id) (askDocument d) path := by
  have hnone : anchorEntry? path.toList = none := by
    unfold anchorEntry?
    rw [stripPrefix?_eq_none hentry, stripPrefix?_eq_none hrooted]
    rfl
  have hne : path.toList ≠ ['/'] := fun h => hslash (String.toList_injective h)
  have hsame : resolve (m := Id) (askDocument d) (String.ofList path.toList) =
      resolve (m := Id) (askDocument d) path := by rw [String.ofList_toList]
  rw [pathOf, anchor, hnone, ← hsame]
  rw [AnchorsStep] at hstep
  simp only [anchorRoot?, if_neg hne]
  by_cases hempty : root.toList.isEmpty = true
  · rw [if_pos hempty]
  · rw [if_neg hempty] at hstep ⊢
    by_cases hprefix : root.toList.isPrefixOf path.toList = true
    · rw [if_pos hprefix] at hstep ⊢
      exact resolve_slash hstep
    · rw [if_neg hprefix] at hstep ⊢
      cases hsplit : splitOnce? ('(' :: root.toList) path.toList with
      | none => rw [anchorCall?, hsplit]; rfl
      | some parts =>
        obtain ⟨before, after⟩ := parts
        obtain ⟨hbefore, hbehind⟩ := hstep before after hsplit
        have hpath := splitOnce?_eq_some hsplit
        rw [List.append_assoc, List.cons_append] at hpath
        rw [anchorCall?, hsplit, hpath]
        exact resolve_paren_slash hbefore hbehind

end Anchoring

/-- Behind the parenthesis of a call. -/
theorem resolve_pathOf_call :
    pathOf "a" "string(a)".toList = "string(/a)" ∧
      resolve (m := Id) (askDocument oneText) (pathOf "a" "string(a)".toList) =
        resolve (m := Id) (askDocument oneText) "string(a)" := by
  have hsplit : splitOnce? ('(' :: "a".toList) "string(a)".toList = some ("string".toList, [')']) := by
    decide
  have hscan : tokensAfter none ("a".toList ++ [')']) = .ok [.name "a", .closeParen] := by cbv
  have hstep : AnchorsStep "a".toList "string(a)".toList := by
    rw [AnchorsStep, if_neg (by decide), if_neg (by decide)]
    intro before after h
    rw [hsplit] at h
    cases h
    refine ⟨endsOutside_string, ?_⟩
    rw [BeginsStep, hscan]
    rfl
  exact ⟨by decide, resolve_pathOf oneText "a" "string(a)" (by decide) (by decide) (by decide) hstep⟩

/-- An element around a text and an element of another name, in which there is one of the same name. -/
def nestedText : Document :=
  .ofContent [.element "a" [] [.text "x", .element "b" [] [.element "a" [] [.text "t"]]]]

/-- A call at the front has its own value and not that of a path. -/
theorem resolve_function_ne :
    resolve (m := Id) (askDocument (.ofContent [.element "c" [] []])) "concat('x','y')" = "xy" ∧
      resolve (m := Id) (askDocument (.ofContent [.element "c" [] []]))
        (pathOf "c" "concat('x','y')".toList) = "" := by
  have hplain : tokensAfter none "concat('x','y')".toList =
      .ok [.name "concat", .openParen, .literal "x", .comma, .literal "y", .closeParen] := by cbv
  have hslash : tokensAfter none "/concat('x','y')".toList =
      .ok [.slash, .name "concat", .openParen, .literal "x", .comma, .literal "y", .closeParen] := by cbv
  have hanchored : pathOf "c" "concat('x','y')".toList = "/concat('x','y')" := by decide
  constructor
  · have hcall : Expr.ofTokens (callTokens .string
        [.name "concat", .openParen, .literal "x", .comma, .literal "y", .closeParen]) =
          .ok (.call .string [.call .concat [.literal "x", .literal "y"]]) := by cbv
    have heval : (Expr.call .string [.call .concat [.literal "x", .literal "y"]]).eval
        (.ofContent [.element "c" [] []]) .ofRoot = .ok (.atom (.text "xy")) := rfl
    rw [resolve_eq_of_eval (tokenize_eq_ok_iff.mpr hplain) hcall heval]
    rfl
  · have hcall : Expr.ofTokens (callTokens .string
        [.slash, .name "concat", .openParen, .literal "x", .comma, .literal "y", .closeParen]) =
          .error (.unexpectedToken .closeParen (some (.name "concat"))) := by cbv
    rw [hanchored, resolve_eq_of_error (tokenize_eq_ok_iff.mpr hslash) hcall]

/-- A parenthesis in a literal is taken for one of the path. -/
theorem resolve_literal_ne :
    resolve (m := Id) (askDocument oneText) "string('(a')" = "(a" ∧
      resolve (m := Id) (askDocument oneText) (pathOf "a" "string('(a')".toList) = "(/a" := by
  have hplain : tokensAfter none "string('(a')".toList =
      .ok [.name "string", .openParen, .literal "(a", .closeParen] := by cbv
  have hslash : tokensAfter none "string('(/a')".toList =
      .ok [.name "string", .openParen, .literal "(/a", .closeParen] := by cbv
  have hanchored : pathOf "a" "string('(a')".toList = "string('(/a')" := by decide
  constructor
  · have hcall : Expr.ofTokens (callTokens .string
        [.name "string", .openParen, .literal "(a", .closeParen]) =
          .ok (.call .string [.call .string [.literal "(a"]]) := by cbv
    have heval : (Expr.call .string [.call .string [.literal "(a"]]).eval oneText .ofRoot =
        .ok (.atom (.text "(a")) := rfl
    rw [resolve_eq_of_eval (tokenize_eq_ok_iff.mpr hplain) hcall heval]
    rfl
  · have hcall : Expr.ofTokens (callTokens .string
        [.name "string", .openParen, .literal "(/a", .closeParen]) =
          .ok (.call .string [.call .string [.literal "(/a"]]) := by cbv
    have heval : (Expr.call .string [.call .string [.literal "(/a"]]).eval oneText .ofRoot =
        .ok (.atom (.text "(/a")) := rfl
    rw [hanchored, resolve_eq_of_eval (tokenize_eq_ok_iff.mpr hslash) hcall heval]
    rfl

def testedPath (absolute : Bool) : Expr :=
  .path true [.anywhereBelow, .mk .child (.name "b")
    [.binary (.compare .eq) (.call .string [.path absolute [.mk .child (.name "a") []]]) (.literal "t")]]

/-- The path leads to what its last step selects of all nodes of the document. -/
theorem eval_testedPath_of_gather {absolute : Bool} {ns : List NodeId}
    (h : gather ((Step.mk .child (.name "b") [.binary (.compare .eq)
      (.call .string [.path absolute [.mk .child (.name "a") []]]) (.literal "t")]).select nestedText)
        [0, 1, 2, 3, 4, 5] = .ok ns) (hns : documentOrder ns = ns) :
    (Expr.call .string [testedPath absolute]).eval nestedText .ofRoot =
      .ok (.atom (.text ((Value.nodes ns).toText nestedText))) := by
  have hall : gather (Step.anywhereBelow.select nestedText) [Document.root] =
      .ok [0, 1, 2, 3, 4, 5] := by
    decide +kernel
  have horder : documentOrder [0, 1, 2, 3, 4, 5] = [0, 1, 2, 3, 4, 5] := by
    rw [documentOrder, List.mergeSort_of_pairwise (by decide)]
    rfl
  have hlast : walk nestedText [.mk .child (.name "b") [.binary (.compare .eq)
      (.call .string [.path absolute [.mk .child (.name "a") []]]) (.literal "t")]]
        [0, 1, 2, 3, 4, 5] = .ok ns :=
    bind_of_ok h (congrArg Except.ok hns)
  have hpath : (testedPath absolute).eval nestedText .ofRoot = .ok (.nodes ns) := by
    rw [testedPath, Expr.eval, if_pos rfl, walk, hall]
    change (walk nestedText _ (documentOrder _)).map Value.nodes = _
    rw [horder, hlast]
    rfl
  rw [Expr.eval, evalAll, hpath]
  rfl

theorem eval_testedPath :
    (Expr.call .string [testedPath false]).eval nestedText .ofRoot = .ok (.atom (.text "t")) ∧
      (Expr.call .string [testedPath true]).eval nestedText .ofRoot = .ok (.atom (.text "")) := by
  constructor
  · exact @eval_testedPath_of_gather false [3] (by decide +kernel) (by decide +kernel)
  · exact @eval_testedPath_of_gather true [] (by decide +kernel) (by decide +kernel)

/-- A parenthesis in a predicate is taken for one of the path. -/
theorem resolve_predicate_ne :
    resolve (m := Id) (askDocument nestedText) "//b[string(a)='t']" = "t" ∧
      resolve (m := Id) (askDocument nestedText) (pathOf "a" "//b[string(a)='t']".toList) = "" := by
  have hplain : tokensAfter none "//b[string(a)='t']".toList =
      .ok [.doubleSlash, .name "b", .openBracket, .name "string", .openParen, .name "a", .closeParen,
        .operator (.compare .eq), .literal "t", .closeBracket] := by cbv
  have hslash : tokensAfter none "//b[string(/a)='t']".toList =
      .ok [.doubleSlash, .name "b", .openBracket, .name "string", .openParen, .slash, .name "a",
        .closeParen, .operator (.compare .eq), .literal "t", .closeBracket] := by cbv
  have hanchored : pathOf "a" "//b[string(a)='t']".toList = "//b[string(/a)='t']" := by decide
  constructor
  · have hcall : Expr.ofTokens (callTokens .string
        [.doubleSlash, .name "b", .openBracket, .name "string", .openParen, .name "a", .closeParen,
          .operator (.compare .eq), .literal "t", .closeBracket]) =
            .ok (.call .string [testedPath false]) := by cbv
    rw [resolve_eq_of_eval (tokenize_eq_ok_iff.mpr hplain) hcall eval_testedPath.1]
    rfl
  · have hcall : Expr.ofTokens (callTokens .string
        [.doubleSlash, .name "b", .openBracket, .name "string", .openParen, .slash, .name "a",
          .closeParen, .operator (.compare .eq), .literal "t", .closeBracket]) =
            .ok (.call .string [testedPath true]) := by cbv
    rw [hanchored, resolve_eq_of_eval (tokenize_eq_ok_iff.mpr hslash) hcall eval_testedPath.2]
    rfl

/-- A slash before the name of a function ends the path, one within a literal is part of the text, and
one in a predicate leads away from the node in question. -/
theorem resolve_pathOf_ne :
    (resolve (m := Id) (askDocument (.ofContent [.element "c" [] []])) "concat('x','y')" = "xy" ∧
      resolve (m := Id) (askDocument (.ofContent [.element "c" [] []]))
        (pathOf "c" "concat('x','y')".toList) = "") ∧
      (resolve (m := Id) (askDocument oneText) "string('(a')" = "(a" ∧
        resolve (m := Id) (askDocument oneText) (pathOf "a" "string('(a')".toList) = "(/a") ∧
      resolve (m := Id) (askDocument nestedText) "//b[string(a)='t']" = "t" ∧
        resolve (m := Id) (askDocument nestedText) (pathOf "a" "//b[string(a)='t']".toList) = "" :=
  ⟨resolve_function_ne, resolve_literal_ne, resolve_predicate_ne⟩

end ComputedField.Template
